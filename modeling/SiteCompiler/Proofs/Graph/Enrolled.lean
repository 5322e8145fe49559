import SiteCompiler.Proofs.Graph.Closure

namespace SiteCompiler.Graph

open Disk (Place EndsIn Grows)
open ArtifactStore (recordEnding)

variable {w w' : World} {m : Module} {id text : String}

def World.Enrolled (w : World) : Prop :=
  ∀ place content, w.storePlace <+: place → EndsIn place recordEnding →
    w.disk.entry? place = some (.file content) →
      ∃ m m' : Module, m.record.text.toUTF8 = content ∧ w.Has m.id m'

theorem Yields.invariant {P : World → Prop}
    (hsame : ∀ {w w' : World}, P w → World.SameModules w w' → P w')
    (hfinish : ∀ {w : World} {m : Module} (changed : Bool), P w → Filed w.graph.store m →
      P (w.finish m changed))
    {r r' : Run} {t : Task} {out : Outcome} (h : Yields r t out r')
    (hs : r.Sound False fun _ ↦ True) (ht : t.Proper) (hp : P r.world) : P r'.world := by
  have hT : Faithful False fun _ ↦ True := False.elim
  have hall : ∀ w : World, w.Each fun _ ↦ True := fun _ _ _ _ ↦ trivial
  induction h with
  | deep => exact hp
  | vendored => exact hp
  | again => exact hp
  | lost => exact hp
  | unprepared _ _ hprep => exact hsame hp (World.prepare_eq hprep).1
  | @leaf r id o m changed world hr hv hprep _ =>
    obtain ⟨hm, -, -⟩ := hs.inside hT ht hprep
    have hworld := (World.prepare_eq hprep).1
    exact hfinish changed (hsame hp hworld) (hworld.store ▸ hm.toFiled)
  | @dropped r inner id o m changed world stop hr hv hprep ha hb ih =>
    obtain ⟨-, hs', ht'⟩ := hs.inside hT ht hprep
    exact ih hs' ht' (hsame hp (World.prepare_eq hprep).1)
  | @kept r inner id o m changed world ds hr hv hprep ha hb ih =>
    obtain ⟨hm, hs', ht'⟩ := hs.inside hT ht hprep
    have hworld := (World.prepare_eq hprep).1
    have hstore := hb.frame.1.store.trans hworld.store
    exact hfinish changed (ih hs' ht' (hsame hp hworld)) (hstore ▸ hm.toFiled)
  | @broken r inner id o m changed world ds stop hr hv hprep ha hb hl ih =>
    obtain ⟨-, hs', ht'⟩ := hs.inside hT ht hprep
    exact ih hs' ht' (hsame hp (World.prepare_eq hprep).1)
  | @relinked r inner id o m m' changed world ds hr hv hprep ha hb hl ih =>
    obtain ⟨hm, hs', ht'⟩ := hs.inside hT ht hprep
    have hworld := (World.prepare_eq hprep).1
    have hstore := hb.frame.1.store.trans hworld.store
    have hm' : Known False inner.world.graph.store m' :=
      Known.relink (hstore ▸ hm) (hb.sound hT hs' ht' (hall _)).2 hl
    exact hfinish true (ih hs' ht' (hsame hp hworld)) hm'.toFiled
  | done => exact hp
  | failed hf ih => exact ih hs (ht _ List.mem_cons_self).2 hp
  | @cut r r' r'' importer d rest m stop hf ho ih ih' =>
    obtain ⟨hframe, hst⟩ := hf.frame
    have hvisit := (ht d List.mem_cons_self).2
    have hs' := hs.after hframe (hst fun _ h ↦ Outcome.noConfusion h)
      (hf.sound hT hs hvisit (hall _)).1
    exact ih' hs' (fun d' hd ↦ ht d' (List.mem_cons_of_mem d hd)) (ih hs hvisit hp)
  | @next r r' r'' importer d rest settled m changed hf ho ih ih' =>
    obtain ⟨hframe, hst⟩ := hf.frame
    have hvisit := (ht d List.mem_cons_self).2
    have hs' := hs.after hframe (hst fun _ h ↦ Outcome.noConfusion h)
      (hf.sound hT hs hvisit (hall _)).1
    exact ih' hs' (fun d' hd ↦ ht d' (List.mem_cons_of_mem d hd)) (ih hs hvisit hp)

namespace World.Enrolled

theorem of_fresh (hf : w.Fresh) : w.Enrolled := by
  intro place content hbelow hend hentry
  obtain ⟨_, -, hfalse, -⟩ :=
    (sound_of_fresh (F := False) (T := fun _ ↦ False) hf).records place content hbelow hend hentry
  exact hfalse.elim

theorem sameModules (h : w.Enrolled) (hs : World.SameModules w w') : w'.Enrolled := by
  intro place content hbelow hend hentry
  rw [World.storePlace, hs.store, hs.disk] at hbelow
  rw [hs.disk] at hentry
  obtain ⟨m, m', hm, hhas⟩ := h place content hbelow hend hentry
  exact ⟨m, m', hm, hs.has.2 hhas⟩

theorem grows (h : w.Enrolled) (hstore : w'.graph.store = w.graph.store)
    (hhas : ∀ id m, w.Has id m → ∃ m', w'.Has id m') {new : Place → ByteArray → Prop}
    (hg : Grows new w.disk w'.disk)
    (hnew : ∀ p c, new p c → EndsIn p recordEnding →
      ∃ m m' : Module, m.record.text.toUTF8 = c ∧ w'.Has m.id m') : w'.Enrolled := by
  intro place content hbelow hend hentry
  rw [World.storePlace, hstore, hg.workingDirectory] at hbelow
  rcases hg.origin place content hentry with ho | hn
  · obtain ⟨m, m', hm, hm'⟩ := h place content hbelow hend ho
    obtain ⟨m'', hm''⟩ := hhas _ _ hm'
    exact ⟨m, m'', hm, hm''⟩
  · exact hnew place content hn hend

theorem finish (h : w.Enrolled) (hm : Filed w.graph.store m) (changed : Bool) :
    (w.finish m changed).Enrolled := by
  have hg := (World.through_finish hm changed).grows fun _ ↦ Keeps.writes_records
  refine h.grows (w.modules_finish m changed).2.1 (fun id m' hm' ↦ ?_) hg fun p c hn hend ↦ ?_
  · by_cases hid : m.id = id
    · exact ⟨m, hid ▸ w.has_finish_self m changed⟩
    · exact ⟨m', (w.has_finish_of_ne changed hid m').2 hm'⟩
  · obtain ⟨m', hid, hm'⟩ := hn hend
    exact ⟨m', m, hm', hid ▸ w.has_finish_self m changed⟩

theorem persistAlias (h : w.Enrolled) (a : Alias) : (w.persistAlias a).Enrolled := by
  have hsame := World.sameGraph_persistAlias w a
  have hg : Grows (ArtifactStore.PutsCode (w.graph.store.codePath a.target.stem (some a.hashPrefix))
      a.target.code a.target.sourceMap w.disk.workingDirectory) w.disk (w.persistAlias a).disk := by
    rw [World.persistAlias]
    split
    · exact .refl _ _
    · rw [World.disk_persistBy]
      exact ArtifactStore.writes_writeCode _ _ _ w.disk
  exact h.grows hsame.store (fun _ m hm ↦ ⟨m, hsame.has.2 hm⟩) hg fun p c hn hend ↦
    absurd hend (putsCode_ending hn).1

theorem persistAliases (h : w.Enrolled) (visited : List String) :
    (w.persistAliases visited).Enrolled := by
  rw [World.persistAliases]
  generalize w.graph.aliases.filter (fun a ↦ visited.contains a.target.id) = as
  induction as generalizing w with
  | nil => exact h
  | cons a as ih =>
    rw [List.foldl_cons]
    exact ih (h.persistAlias a)

theorem compile (h : w.Enrolled) (hs : Sound False (fun _ ↦ True) w) (text : String) (o : Options) :
    (w.compile text o).2.Enrolled := by
  have hyields : ∀ {id : String} {out : Outcome} {r : Run}, ModuleId.Proper id →
      Yields (Run.start w) (.visit id o) out r → r.world.Enrolled := fun hid hy ↦
    hy.invariant (fun hp hsame ↦ hp.sameModules hsame) (fun changed hp hm ↦ hp.finish hm changed)
      hs.run hid h
  rcases compile_cases w text o with ⟨cause, -, hc⟩ | ⟨id, r, he, ⟨stop, hy, hc⟩ | ⟨m, hy, hc⟩⟩
  · rw [hc]
    exact h
  · rw [hc]
    exact hyields (proper_entryId he) hy
  · rw [hc]
    exact (hyields (proper_entryId he) hy).persistAliases r.visited

theorem previous?_eq (h : w.Enrolled) (hid : ModuleId.Proper id)
    (hr : w.graph.remote.find? id = none) : w.previous? id = w.graph.modules.find? id := by
  rw [World.previous?]
  cases hm : w.graph.modules.find? id with
  | some m => exact Option.some_or
  | none =>
    rw [Option.none_or]
    cases hl : w.graph.loadPersisted? w.disk id with
    | none => rfl
    | some m =>
      obtain ⟨found, -, -, hread, hfound, -⟩ := loadPersisted?_eq_some hl
      obtain ⟨octets, hentry, hread⟩ := readRecord?_eq_some hread
      obtain ⟨hbelow, hend⟩ := recordPath_place w hid
      obtain ⟨m, m', rfl, hm'⟩ := h _ octets hbelow hend hentry
      rw [ArtifactStore.recordText, Text.Utf8.decode?_toUTF8, Option.getD_some] at hread
      obtain rfl := ModuleMeta.eq_of_read?_text hread
      rw [show m.id = id from hfound] at hm'
      rcases hm' with hm' | hm'
      · rw [module?, hm] at hm'
        cases hm'
      · rw [remoteModule?, hr] at hm'
        cases hm'

end World.Enrolled

end SiteCompiler.Graph
