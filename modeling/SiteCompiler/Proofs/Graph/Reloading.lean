import SiteCompiler.Proofs.Graph.Atomicity
import SiteCompiler.Proofs.Graph.Idle
import SiteCompiler.Proofs.Graph.Reuse
import SiteCompiler.Proofs.Refilling

namespace SiteCompiler.Graph

open Disk (Place placeOf EndsIn Grows Through)
open ArtifactStore (codeEnding PutsCode recordText readText? sourceMapPath)
open Digest (contentHash)

variable {ids ids' : String → Prop} {g : Graph} {store : ArtifactStore} {disk disk' : Disk}
variable {w w' world : World} {r r' inner : Run} {t : Task} {out : Outcome} {o : Options}
variable {m m' : Module} {ds : List Dependency} {id text : String} {changed : Bool} {s : Settings}

section Loading

/-- A module is loaded as before if its record, its code and its source map are read as before. -/
theorem loadPersisted?_of_reads (h : g.loadPersisted? disk id = some m)
    (hmap : g.settings.sourceMap = true → m.sourceMap.isSome)
    (hrecord : ∀ r, g.store.readRecord? disk (ModuleId.stem id) = some r →
      g.store.readRecord? disk' (ModuleId.stem id) = some r)
    (hcode : readText? disk m.file = some m.code → readText? disk' m.file = some m.code)
    (hsource : ∀ map, m.sourceMap = some map → readText? disk (sourceMapPath m.file) = some map →
      readText? disk' (sourceMapPath m.file) = some map) : g.loadPersisted? disk' id = some m := by
  simp only [loadPersisted?, Option.bind_eq_bind, Option.bind_eq_some_iff] at h ⊢
  obtain ⟨found, hr, u, hs, code, hc, u', hv, h⟩ := h
  have hm := Option.some_inj.1 h
  rw [← hm] at hmap hcode hsource
  dsimp only at hmap hcode hsource
  have hc := hcode hc
  refine ⟨found, hrecord found hr, u, hs, code, hc, u', hv, ?_⟩
  rw [← h]
  cases hset : g.settings.sourceMap with
  | false => rw [if_neg Bool.false_ne_true, if_neg Bool.false_ne_true]
  | true =>
    rw [if_pos hset] at hmap hsource
    obtain ⟨map, hread⟩ := Option.isSome_iff_exists.1 (hmap hset)
    rw [if_pos rfl, if_pos rfl, hread, hsource map hread hread]

theorem loadPersisted?_of_grows {new : Place → ByteArray → Prop} (hg : Grows new disk disk')
    (h : g.loadPersisted? disk id = some m) (hmap : g.settings.sourceMap = true → m.sourceMap.isSome)
    (hrecord : ∀ c, ¬new (placeOf disk.workingDirectory (g.store.recordPath (ModuleId.stem id))) c)
    (hcode : ∀ c, new (placeOf disk.workingDirectory m.file) c → m.code.toUTF8 = c)
    (hsource : ∀ c, new (placeOf disk.workingDirectory (sourceMapPath m.file)) c →
      ∃ map, m.sourceMap = some map ∧ map.toUTF8 = c) : g.loadPersisted? disk' id = some m := by
  refine loadPersisted?_of_reads h hmap (fun r hr ↦ ?_)
    (fun hr ↦ ArtifactStore.readText?_of_grows hg hr hcode) fun map he hr ↦
    ArtifactStore.readText?_of_grows hg hr fun c hc ↦ ?_
  · obtain ⟨p, content, hl, he, hread⟩ := readRecord?_eq_some_iff.1 hr
    obtain ⟨content', he', rfl | hn⟩ := hg.file he
    · exact readRecord?_eq_some_iff.2 ⟨p, _, hg.locate hl, he', hread⟩
    · exact absurd (Disk.locate_eq_ok hl ▸ hn) (hrecord content')
  · obtain ⟨map', he', hc⟩ := hsource c hc
    exact Option.some_inj.1 (he'.symm.trans he) ▸ hc

/-- What has the record of a module has its source map as well, where there is one for each module. -/
def Maps (g : Graph) (disk : Disk) (id : String) : Prop :=
  g.settings.sourceMap = true → ∀ content found,
    disk.entry? (placeOf disk.workingDirectory (g.store.recordPath (ModuleId.stem id))) =
      some (.file content) →
    ModuleMeta.read? (recordText content) = some found → found.sourceFile = id →
    ∃ map, readText? disk (sourceMapPath (g.store.codePath (ModuleId.stem id)
      (if found.isRemote then none else some found.hash))) = some map

theorem Maps.of_grows {new : Place → ByteArray → Prop} (h : g.Maps disk id) (hg : Grows new disk disk')
    (hrecord : ∀ c, ¬new (placeOf disk.workingDirectory (g.store.recordPath (ModuleId.stem id))) c)
    (ht : Grows (fun _ c ↦ ∃ text : String, text.toUTF8 = c) disk disk') : g.Maps disk' id := by
  intro hset content found he hr hs
  rw [hg.workingDirectory] at he
  obtain ⟨map, hread⟩ := h hset content found ((hg.origin _ _ he).resolve_right (hrecord content)) hr hs
  obtain ⟨place, hl, he⟩ := Disk.readBytes_eq_ok (ArtifactStore.readText?_eq_some hread)
  obtain ⟨c, hc, rfl | ⟨text, rfl⟩⟩ := ht.file he
  · exact ⟨map, ArtifactStore.readText?_of_readBytes (Disk.readBytes_of_file (hg.locate hl) hc)⟩
  · exact ⟨text, ArtifactStore.readText?_of_readBytes (Disk.readBytes_of_file (hg.locate hl) hc)⟩

theorem Maps.isSome (h : g.Maps disk id) (hl : g.loadPersisted? disk id = some m)
    (hs : g.settings.sourceMap = true) : m.sourceMap.isSome = true := by
  simp only [loadPersisted?, Option.bind_eq_bind, Option.bind_eq_some_iff] at hl
  obtain ⟨found, hr, _, hsource, code, -, _, -, hl⟩ := hl
  obtain rfl := Option.some_inj.1 hl
  obtain ⟨p, content, hp, he, hread⟩ := readRecord?_eq_some_iff.1 hr
  obtain ⟨map, hmap⟩ := h hs content found (Disk.locate_eq_ok hp ▸ he) hread (of_guard hsource)
  dsimp only
  rw [if_pos hs, hmap]
  rfl

/-- A module that the store can give back as it is: it has a source map just if each module has one,
and its slots have their places in its code. -/
structure Settings.Suits (s : Settings) (m : Module) : Prop where
  sourceMap : m.sourceMap.isSome = s.sourceMap
  valid : HashSlot.valid m.code m.slots = true

theorem Maps.suits (h : g.Maps disk id) (hl : g.loadPersisted? disk id = some m) :
    g.settings.Suits m := by
  refine ⟨Bool.eq_iff_iff.2 ⟨fit_of_loadPersisted? hl, h.isSome hl⟩, ?_⟩
  simp only [loadPersisted?, Option.bind_eq_bind, Option.bind_eq_some_iff] at hl
  obtain ⟨found, -, _, -, code, -, _, hv, hl⟩ := hl
  obtain rfl := Option.some_inj.1 hl
  exact (Bool.and_eq_true_iff.1 (of_guard hv)).2

theorem Settings.Suits.relink (h : s.Suits m) (hd : Resettled m.dependencies ds)
    (hl : g.relink m ds = .ok m') : s.Suits m' := by
  obtain ⟨changed, code, hf, rfl⟩ := relink_eq_ok hl
  have hhash : ∀ hash ∈ ds.map (·.hash), Digest.IsHash hash := fun hash hm ↦ by
    obtain ⟨d, hd', rfl⟩ := List.mem_map.1 hm
    exact hd.isHash d hd'
  cases changed with
  | false => exact ⟨h.sourceMap, h.valid⟩
  | true => exact ⟨h.sourceMap, HashSlot.valid_fill hhash h.valid hf⟩

theorem suits_transpile {F : Prop} {T : String → Prop} (hs : Sound F T w) {source : Source}
    {previous : Option Module} (hp : ∀ m ∈ previous, Known F w.graph.store m)
    (h : w.graph.transpile w.disk id source o previous = .ok m) : w.graph.settings.Suits m := by
  obtain ⟨c, changed, code, hc, hf, rfl⟩ := transpile_eq_ok h
  obtain ⟨sourceMap, hc', hmap⟩ := Compiled.compile_withMap hc w.graph.settings.sourceMap
  have he : c.sourceMap = sourceMap :=
    congrArg Compiled.sourceMap (Except.ok.inj (hc.symm.trans hc'))
  have hblank := (Compiled.compile_linked hc).2.2.valid fun hash hm ↦ by
    obtain ⟨_, -, rfl⟩ := List.mem_map.1 hm
    exact .inl rfl
  refine ⟨he ▸ hmap, HashSlot.valid_fill (fun hash hm ↦ ?_) hblank hf⟩
  obtain ⟨path, -, rfl⟩ := List.mem_map.1 hm
  exact isHash_knownHash hs hp path

end Loading

section Writing

theorem readText?_sourceMap_write {stem record path code map : String}
    (h : (disk.perform (store.write stem record path code (some map))).1 = .ok ()) :
    readText? (disk.perform (store.write stem record path code (some map))).2 (sourceMapPath path) =
      some map := by
  rw [ArtifactStore.write] at h ⊢
  obtain ⟨-, hcode, he⟩ := ArtifactStore.perform_bind_ok h
  rw [he]
  rw [ArtifactStore.writeCode.eq_def] at hcode ⊢
  obtain ⟨-, hmap, he'⟩ := ArtifactStore.perform_bind_ok hcode
  rw [he']
  exact ArtifactStore.readText?_writeText hmap

/-- A module that has been written can be loaded as it was. -/
theorem loads_of_written (hm : Filed g.store m) (hs : g.settings.Suits m)
    (h : (disk.perform (g.store.write m.stem m.record.text m.file m.code m.sourceMap)).1 = .ok ()) :
    g.loadPersisted? (disk.perform (g.store.write m.stem m.record.text m.file m.code m.sourceMap)).2
      m.id = some m ∧
    g.Maps (disk.perform (g.store.write m.stem m.record.text m.file m.code m.sourceMap)).2 m.id := by
  have hrecord := readRecord?_of_written hm.file h
  have hmap : ∀ map, m.sourceMap = some map → readText? (disk.perform
      (g.store.write m.stem m.record.text m.file m.code m.sourceMap)).2 (sourceMapPath m.file) =
        some map := by
    intro map he
    rw [he] at h ⊢
    exact readText?_sourceMap_write h
  have hend : EndsIn (placeOf disk.workingDirectory m.file) codeEnding := by
    rw [hm.file]
    exact g.store.endsIn_codePath _ _ _
  have hcode := ArtifactStore.readText?_write hend h
  generalize (disk.perform (g.store.write m.stem m.record.text m.file m.code m.sourceMap)).2 = disk'
    at hrecord hmap hcode
  constructor
  · rw [loadPersisted?_of_texts hm.hash hm.file hs.valid hrecord hcode]
    have hsource := hs.sourceMap
    cases hset : g.settings.sourceMap with
    | false =>
      rw [hset, Option.isSome_eq_false_iff, Option.isNone_iff_eq_none] at hsource
      rw [if_neg Bool.false_ne_true, ← hsource]
    | true =>
      rw [hset] at hsource
      obtain ⟨map, he⟩ := Option.isSome_iff_exists.1 hsource
      rw [if_pos rfl, hmap map he, ← he]
  · intro hset content found he hr _
    obtain ⟨p, content', hl, he', hread⟩ := readRecord?_eq_some_iff.1 hrecord
    rw [Disk.locate_eq_ok hl] at he'
    obtain rfl := Disk.Entry.file.inj (Option.some_inj.1 (he.symm.trans he'))
    obtain rfl := Option.some_inj.1 (hr.symm.trans hread)
    obtain ⟨map, hsource⟩ := Option.isSome_iff_exists.1 (hs.sourceMap.trans hset)
    have hfile : g.store.codePath (ModuleId.stem m.id)
        (if m.record.isRemote then none else some m.record.hash) = m.file := hm.file.symm
    exact ⟨map, by rw [hfile]; exact hmap map hsource⟩

theorem exists_text_of_putsCode {path code : String} {sourceMap : Option String} {wd p : Place}
    {c : ByteArray} (h : PutsCode path code sourceMap wd p c) : ∃ text : String, text.toUTF8 = c := by
  rcases h with ⟨-, h⟩ | ⟨map, -, -, h⟩
  · exact ⟨code, h⟩
  · exact ⟨map, h⟩

theorem Keeps.writes_text {a : Disk.Action Unit} (h : Keeps store ids a) :
    Disk.Writes (fun _ _ c ↦ ∃ text : String, text.toUTF8 = c) a := by
  cases h with
  | write => exact (ArtifactStore.writes_write _ _ _ _ _ _).mono fun _ _ _ hn ↦
      hn.elim (fun h ↦ ⟨_, h.2⟩) exists_text_of_putsCode
  | writeUnder =>
    exact (ArtifactStore.writes_writeCode _ _ _).mono fun _ _ _ ↦ exists_text_of_putsCode

end Writing

section Shelves

def World.Parted (w : World) (ids : String → Prop) : Prop :=
  ∀ a b, ids a → ids b → a ≠ b → ∀ place, w.Stores a place → ¬w.Stores b place

theorem World.Parted.mono {ids' : String → Prop} (h : w.Parted ids) (hm : ∀ x, ids' x → ids x) :
    w.Parted ids' :=
  fun a b ha hb ↦ h a b (hm a ha) (hm b hb)

theorem World.Parted.of_eq (h : w.Parted ids) (hs : w'.graph.store = w.graph.store)
    (hw : w'.disk.workingDirectory = w.disk.workingDirectory) : w'.Parted ids := by
  intro a b ha hb hne place
  rw [World.Stores, World.Stores, hs, hw]
  exact h a b ha hb hne place

/-- A graph that is new would load each registered module from the store as it is. -/
structure Shelved (ids : String → Prop) (w : World) : Prop extends Kept ids w where
  proper : ∀ id, ids id → ModuleId.Proper id
  parted : w.Parted ids
  loads : ∀ id m, w.Has id m → w.graph.loadPersisted? w.disk id = some m
  maps : ∀ id, ids id → w.graph.Maps w.disk id

theorem loadPersisted?_eq_of_graph {g g' : Graph} (hs : g'.store = g.store)
    (ht : g'.settings = g.settings) : g'.loadPersisted? = g.loadPersisted? := by
  funext disk id
  exact World.loadPersisted?_congr hs ht disk id

theorem maps_eq_of_graph {g g' : Graph} (hs : g'.store = g.store) (ht : g'.settings = g.settings) :
    g'.Maps = g.Maps := by
  funext disk id
  rw [Maps, Maps, hs, ht]

theorem Shelved.sameModules (h : Shelved ids w) (hs : World.SameModules w w') : Shelved ids w' where
  toKept := h.toKept.sameModules hs
  proper := h.proper
  parted := h.parted.of_eq hs.store (by rw [hs.disk])
  loads := fun id m hm ↦ by
    rw [loadPersisted?_eq_of_graph hs.store hs.settings, hs.disk]
    exact h.loads id m (hs.has.1 hm)
  maps := fun id hid ↦ by
    rw [maps_eq_of_graph hs.store hs.settings, hs.disk]
    exact h.maps id hid

/-- Writing the files of other modules does not change what the store gives back for a module. -/
theorem Shelved.through (h : Shelved ids w) (ht : Through (Keeps w.graph.store ids') w.disk disk')
    (hsub : ∀ x, ids' x → ids x) (hid : ids id) (hne : ¬ids' id) :
    (∀ m, w.graph.loadPersisted? w.disk id = some m → w.graph.loadPersisted? disk' id = some m) ∧
      w.graph.Maps disk' id := by
  have hplaces := ht.grows fun _ ↦ Keeps.writes_stored
  have hapart : ∀ {place}, w.Stores id place →
      ¬∃ x, ids' x ∧ Stored w.graph.store w.disk.workingDirectory x place := by
    rintro place hplace ⟨x, hx, hstored⟩
    exact h.parted id x hid (hsub x hx) (fun he ↦ hne (he ▸ hx)) place hplace hstored
  constructor
  · intro m hm
    have hknown := (h.sound.load False.elim (h.proper id hid) hm).1
    have hmid : m.id = id := by
      obtain ⟨found, _, _, -, hs, -, -, rfl⟩ := loadPersisted?_eq_some hm
      exact hs
    have hnames := hknown.names
    rw [hmid] at hnames
    refine loadPersisted?_of_grows hplaces hm ((h.maps id hid).isSome hm)
      (fun _ ↦ hapart .record) (fun _ hc ↦ absurd hc (hapart ?_)) fun _ hc ↦ absurd hc (hapart ?_)
    · rw [hknown.file, Module.stem, hmid]
      exact .code hnames
    · rw [hknown.file, Module.stem, hmid]
      exact .sourceMap hnames
  · exact (h.maps id hid).of_grows hplaces (fun _ ↦ hapart .record) (ht.grows fun _ ↦ Keeps.writes_text)

namespace Shelved

theorem suits (h : Shelved ids w) (hid : ids id) (hl : w.graph.loadPersisted? w.disk id = some m) :
    w.graph.settings.Suits m :=
  (h.maps id hid).suits hl

theorem of_previous? (h : Shelved ids w) (hm : w.previous? id = some m) :
    w.graph.loadPersisted? w.disk id = some m := by
  rcases Option.or_eq_some_iff.1 hm with hm | ⟨-, hm⟩
  · exact h.loads id m (.inl hm)
  · exact hm

/-- What has not changed since it was recorded is what the store gives back. -/
theorem of_prepares (h : Shelved ids w) (hp : Prepares w id o m false) (hid : ModuleId.Proper id) :
    w.graph.loadPersisted? w.disk id = some m := by
  generalize hc : false = changed at hp
  cases hp with
  | compiled => cases hc
  | @recorded m _ hm =>
    have hl := h.of_previous? hm
    have hknown := (h.sound.load False.elim hid hl).1
    obtain ⟨found, _, _, -, hs, -, -, he⟩ := loadPersisted?_eq_some hl
    have hmid : m.id = id := by
      rw [he]
      exact hs
    rw [hl, ← hmid, ← hknown.isRemote]

theorem suits_of_prepares (h : Shelved ids w) (hp : Prepares w id o m changed)
    (hproper : ModuleId.Proper id) (hid : ids id) : w.graph.settings.Suits m := by
  cases hp with
  | compiled _ ht =>
    refine suits_transpile h.sound (fun m hm ↦ ?_) ht
    exact (h.sound.load False.elim hproper (h.of_previous? hm)).1
  | recorded _ hm =>
    have hs := h.suits hid (h.of_previous? hm)
    exact ⟨hs.sourceMap, hs.valid⟩

theorem finish (h : Shelved ids w) (hm : Known False w.graph.store m) (hid : ids m.id)
    (changed : Bool) (hload : changed = false → w.graph.loadPersisted? w.disk m.id = some m)
    (hsuits : changed = true → w.graph.settings.Suits m) : Shelved ids (w.finish m changed) := by
  obtain ⟨-, hstore, hsettings, -, -⟩ := w.modules_finish m changed
  obtain ⟨hk, hthrough⟩ := h.toKept.finish hm hid changed fun hc ↦ by
    obtain ⟨_, _, _, -, -, hcode, -, he⟩ := loadPersisted?_eq_some (hload hc)
    rw [he]
    dsimp only
    exact hcode
  have hself : w.graph.loadPersisted? (w.finish m changed).disk m.id = some m ∧
      w.graph.Maps (w.finish m changed).disk m.id := by
    rw [World.disk_finish]
    cases changed with
    | false => exact ⟨hload rfl, h.maps m.id hid⟩
    | true =>
      rw [if_pos rfl, World.persist, World.disk_persistBy]
      exact loads_of_written hm.toFiled (hsuits rfl) (h.accepts.perform (.write hm.toFiled hid))
  have hothers : ∀ {x}, ids x → x ≠ m.id →
      (∀ n, w.graph.loadPersisted? w.disk x = some n →
        w.graph.loadPersisted? (w.finish m changed).disk x = some n) ∧
      w.graph.Maps (w.finish m changed).disk x := fun hx hne ↦
    h.through hthrough (fun _ he ↦ he ▸ hid) hx hne
  refine ⟨hk, h.proper, h.parted.of_eq hstore (workingDirectory_of_through hthrough), ?_, ?_⟩
  · intro x n hn
    rw [loadPersisted?_eq_of_graph hstore hsettings]
    by_cases he : m.id = x
    · subst he
      rw [hk.sound.has_unique hn (w.has_finish_self m changed)]
      exact hself.1
    · have hn := (w.has_finish_of_ne changed he n).1 hn
      exact (hothers (hn.id_eq ▸ h.each x n hn) (Ne.symm he)).1 n (h.loads x n hn)
  · intro x hx
    rw [maps_eq_of_graph hstore hsettings]
    by_cases he : x = m.id
    · rw [he]
      exact hself.2
    · exact (hothers hx he).2

theorem concluded (h : Shelved ids r.world) (hproper : ModuleId.Proper id)
    (hp : r.world.prepare id o = (.ok (m, changed), world)) (hin : Shelved ids inner.world)
    (hstore : inner.world.graph.store = r.world.graph.store)
    (hsettings : inner.world.graph.settings = r.world.graph.settings)
    (hthrough : Through (Keeps r.world.graph.store fun x ↦ ids x ∧ x ∉ id :: r.visited)
      r.world.disk inner.world.disk)
    (hm : Known False r.world.graph.store m') (hname : m'.id = id) (hid : ids m'.id)
    (changed' : Bool) (hc : changed' = false → changed = false ∧ m' = m)
    (hsuits : r.world.graph.settings.Suits m') :
    Shelved ids (inner.world.finish m' changed') := by
  refine hin.finish (hstore ▸ hm) hid changed' (fun h' ↦ ?_) fun _ ↦ hsettings ▸ hsuits
  obtain ⟨rfl, rfl⟩ := hc h'
  rw [loadPersisted?_eq_of_graph hstore hsettings]
  refine (h.through hthrough (fun _ hx ↦ hx.1) hid fun hx ↦ hx.2 (hname ▸ List.mem_cons_self)).1 m' ?_
  rw [hname]
  exact h.of_prepares (Prepares.of_eq hp) hproper

end Shelved

theorem Yields.shelves (h : Yields r t out r') (hk : Shelved ids r.world)
    (hstack : ∀ m ∈ r.stack, Known False r.world.graph.store m)
    (ht : t.Proper) (hids : r'.world.Each (ids ·.id)) : Shelved ids r'.world := by
  have hT : Faithful False fun _ ↦ True := False.elim
  have hall : ∀ w : World, w.Each fun _ ↦ True := fun _ _ _ _ ↦ trivial
  induction h with
  | deep => exact hk
  | vendored => exact hk
  | again => exact hk
  | lost => exact hk
  | unprepared _ _ hp => exact hk.sameModules (World.prepare_eq hp).1
  | @leaf r id o m changed world hr hv hp ha =>
    have hs : r.Sound False fun _ ↦ True := ⟨hk.sound, hstack⟩
    have hsame := (World.prepare_eq hp).1
    have hprepares := Prepares.of_eq hp
    obtain ⟨hm, -, -⟩ := hs.inside hT ht hp
    have hid : ids m.id := hids m.id m (world.has_finish_self m changed)
    refine (hk.sameModules hsame).finish (hsame.store ▸ hm) hid changed (fun hc ↦ ?_) fun _ ↦ ?_
    · subst hc
      rw [loadPersisted?_eq_of_graph hsame.store hsame.settings, hsame.disk, hprepares.id_eq]
      exact hk.of_prepares hprepares ht
    · rw [hsame.settings]
      exact hk.suits_of_prepares hprepares ht (hprepares.id_eq ▸ hid)
  | @dropped r inner id o m changed world stop hr hv hp ha hb ih =>
    have hs : r.Sound False fun _ ↦ True := ⟨hk.sound, hstack⟩
    obtain ⟨-, hs', ht'⟩ := hs.inside hT ht hp
    exact ih (hk.sameModules (World.prepare_eq hp).1) hs'.stack ht' hids
  | @kept r inner id o m changed world ds hr hv hp ha hb ih =>
    have hs : r.Sound False fun _ ↦ True := ⟨hk.sound, hstack⟩
    have hsame := (World.prepare_eq hp).1
    have hprepares := Prepares.of_eq hp
    obtain ⟨hm, hs', ht'⟩ := hs.inside hT ht hp
    have hin := hb.frame.1.each_inside hp hk.each rfl hids
    have hid : ids m.id := hids m.id m (inner.world.has_finish_self m changed)
    have hthrough := (hb.keeps (hk.toKept.sameModules hsame) hs'.stack ht' hin).2
    exact hk.concluded ht hp (ih (hk.sameModules hsame) hs'.stack ht' hin)
      (hb.frame.1.store.trans hsame.store) (hb.frame.1.settings.trans hsame.settings)
      (through_inside hp hthrough) hm hprepares.id_eq hid changed (fun h ↦ ⟨h, rfl⟩)
      (hk.suits_of_prepares hprepares ht (hprepares.id_eq ▸ hid))
  | @broken r inner id o m changed world ds stop hr hv hp ha hb hl ih =>
    have hs : r.Sound False fun _ ↦ True := ⟨hk.sound, hstack⟩
    obtain ⟨-, hs', ht'⟩ := hs.inside hT ht hp
    exact ih (hk.sameModules (World.prepare_eq hp).1) hs'.stack ht' hids
  | @relinked r inner id o m m' changed world ds hr hv hp ha hb hl ih =>
    have hs : r.Sound False fun _ ↦ True := ⟨hk.sound, hstack⟩
    have hsame := (World.prepare_eq hp).1
    have hprepares := Prepares.of_eq hp
    obtain ⟨hm, hs', ht'⟩ := hs.inside hT ht hp
    have hname := (relink_id hl).1
    have hin := hb.frame.1.each_inside hp hk.each hname hids
    have hid : ids m'.id := hids m'.id m' (inner.world.has_finish_self m' true)
    have hthrough := (hb.keeps (hk.toKept.sameModules hsame) hs'.stack ht' hin).2
    have hstore := hb.frame.1.store.trans hsame.store
    have hresettled := (hb.sound hT hs' ht' (hall _)).2
    have hm' : Known False inner.world.graph.store m' := Known.relink (hstore ▸ hm) hresettled hl
    rw [hstore] at hm'
    have hsuits := hk.suits_of_prepares hprepares ht (hprepares.id_eq ▸ hname ▸ hid)
    exact hk.concluded ht hp (ih (hk.sameModules hsame) hs'.stack ht' hin)
      hstore (hb.frame.1.settings.trans hsame.settings)
      (through_inside hp hthrough) hm' (hname.trans hprepares.id_eq) hid true
      (fun h ↦ Bool.noConfusion h) (hsuits.relink hresettled hl)
  | done => exact hk
  | failed hf ih => exact ih hk hstack (ht _ List.mem_cons_self).2 hids
  | @cut r r' r'' importer d rest m stop hf ho ih ih' =>
    obtain ⟨hframe, hst⟩ := hf.frame
    have hk' := ih hk hstack (ht d List.mem_cons_self).2 (hframe.each ho.frame.1 hk.each hids)
    have hs' : r'.Sound False fun _ ↦ True :=
      Run.Sound.after ⟨hk.sound, hstack⟩ hframe (hst fun _ h ↦ Outcome.noConfusion h) hk'.sound
    exact ih' hk' hs'.stack (fun d' hd ↦ ht d' (List.mem_cons_of_mem d hd)) hids
  | @next r r' r'' importer d rest settled m changed hf ho ih ih' =>
    obtain ⟨hframe, hst⟩ := hf.frame
    have hk' := ih hk hstack (ht d List.mem_cons_self).2 (hframe.each ho.frame.1 hk.each hids)
    have hs' : r'.Sound False fun _ ↦ True :=
      Run.Sound.after ⟨hk.sound, hstack⟩ hframe (hst fun _ h ↦ Outcome.noConfusion h) hk'.sound
    exact ih' hk' hs'.stack (fun d' hd ↦ ht d' (List.mem_cons_of_mem d hd)) hids

end Shelves

section Histories

variable {ws : List World} {a : Alias}

namespace Shelved

/-- The code of a module under another name takes nothing from what the store gives back for it. -/
theorem of_writeCode (h : Shelved ids w) (hm : w.Has id m) (hash : String)
    (hd : (w.disk.perform (ArtifactStore.writeCode (w.graph.store.codePath m.stem (some hash)) m.code
      m.sourceMap)).2 = disk') :
    (∀ n, w.graph.loadPersisted? w.disk id = some n → w.graph.loadPersisted? disk' id = some n) ∧
      w.graph.Maps disk' id := by
  subst hd
  have hid : ids id := hm.id_eq ▸ h.each id m hm
  have hw := ArtifactStore.writes_writeCode (w.graph.store.codePath m.stem (some hash)) m.code
    m.sourceMap
  have hend := w.graph.store.endsIn_codePath w.disk.workingDirectory m.stem (some hash)
  have hrecord : ∀ c, ¬PutsCode (w.graph.store.codePath m.stem (some hash)) m.code m.sourceMap
      w.disk.workingDirectory
      (placeOf w.disk.workingDirectory (w.graph.store.recordPath (ModuleId.stem id))) c :=
    fun c hc ↦ (putsCode_ending hc).1 (w.graph.store.endsIn_recordPath _ _)
  refine ⟨fun n hn ↦ ?_, (h.maps id hid).of_grows (hw w.disk) hrecord
    ((hw.mono fun _ _ _ ↦ exists_text_of_putsCode) w.disk)⟩
  obtain rfl := Option.some_inj.1 (hn.symm.trans (h.loads id m hm))
  have hfile : EndsIn (placeOf w.disk.workingDirectory n.file) codeEnding := by
    rw [(h.sound.known hm).file]
    exact w.graph.store.endsIn_codePath _ _ _
  refine loadPersisted?_of_grows (hw w.disk) hn ((h.maps id hid).isSome hn) hrecord ?_ ?_
  · intro c hc
    exact (putsCode_ending hc).2 hfile
  · rintro c (⟨hp, -⟩ | ⟨map, hmap, -, hc⟩)
    · exact absurd (hp ▸ hend) (ArtifactStore.not_endsIn_of_ne
        (ArtifactStore.endsIn_sourceMapPath _ _) (by decide))
    · exact ⟨map, hmap, hc⟩

theorem persistAlias (h : Shelved ids w) (ha : w.HasAlias a) : Shelved ids (w.persistAlias a) := by
  obtain ⟨hk, -, -⟩ := h.toKept.persistAlias ha
  have hsame := World.sameGraph_persistAlias w a
  have hid : ids a.target.id := h.each _ _ ha.target
  obtain ⟨hwd, hdisk⟩ : (w.persistAlias a).disk.workingDirectory = w.disk.workingDirectory ∧
      ∀ x, ids x → (∀ n, w.graph.loadPersisted? w.disk x = some n →
        w.graph.loadPersisted? (w.persistAlias a).disk x = some n) ∧
      w.graph.Maps (w.persistAlias a).disk x := by
    rcases disk_persistAlias w a with ⟨hd, -⟩ | hd
    · rw [hd]
      exact ⟨rfl, fun x hx ↦ ⟨fun _ hn ↦ hn, h.maps x hx⟩⟩
    have hkeeps : Keeps w.graph.store (· = a.target.id) (ArtifactStore.writeCode
        (w.graph.store.codePath a.target.stem (some a.hashPrefix)) a.target.code
        a.target.sourceMap) := by
      obtain ⟨text, hnames, hpath⟩ := ha.exists_codePath w.graph.store
      rw [hpath]
      exact .writeUnder _ _ rfl hnames
    have hthrough := Through.one hkeeps w.disk
    rw [← hd] at hthrough
    refine ⟨workingDirectory_of_through hthrough, fun x hx ↦ ?_⟩
    by_cases he : x = a.target.id
    · exact he ▸ h.of_writeCode ha.target a.hashPrefix hd.symm
    · exact h.through hthrough (fun _ he ↦ he ▸ hid) hx he
  refine ⟨hk, h.proper, h.parted.of_eq hsame.store hwd, fun x n hn ↦ ?_, fun x hx ↦ ?_⟩
  · rw [loadPersisted?_eq_of_graph hsame.store hsame.settings]
    have hn := hsame.has.1 hn
    exact (hdisk x (hn.id_eq ▸ h.each x n hn)).1 n (h.loads x n hn)
  · rw [maps_eq_of_graph hsame.store hsame.settings]
    exact (hdisk x hx).2

theorem persistAliases (h : Shelved ids w) (visited : List String) :
    Shelved ids (w.persistAliases visited) := by
  have hall : ∀ (as : List Alias) (w : World), Shelved ids w → (∀ a ∈ as, w.HasAlias a) →
      Shelved ids (as.foldl World.persistAlias w) := by
    intro as
    induction as with
    | nil => exact fun _ h _ ↦ h
    | cons a as ih =>
      intro w h ha
      have hsame := World.sameGraph_persistAlias w a
      rw [List.foldl_cons]
      exact ih _ (h.persistAlias (ha a List.mem_cons_self)) fun b hb ↦
        have hb := ha b (List.mem_cons_of_mem a hb)
        ⟨hsame.has.2 hb.target, hb.isLocal, hb.hash⟩
  rw [World.persistAliases]
  exact hall _ w h fun a ha ↦ hasAlias_of_mem h.sound (List.mem_of_mem_filter ha)

theorem compile (h : Shelved ids w) (hids : (w.compile text o).2.Each (ids ·.id)) :
    Shelved ids (w.compile text o).2 := by
  have hrun : ∀ {id out r}, w.entryId text = .ok id → Yields (Run.start w) (.visit id o) out r →
      r.world.Each (ids ·.id) → Shelved ids r.world := fun he hy hr ↦
    hy.shelves h (fun _ hm ↦ by cases hm) (proper_entryId he) hr
  rcases compile_cases w text o with
    ⟨cause, -, hc⟩ | ⟨id, r, he, ⟨stop, hy, hc⟩ | ⟨m, hy, hc⟩⟩
  · rw [hc]
    exact h
  · rw [hc] at hids ⊢
    exact hrun he hy hids
  · rw [hc] at hids ⊢
    have hsame := World.sameGraph_persistAliases r.world r.visited
    exact (hrun he hy fun id m hm ↦ hids id m (hsame.has.2 hm)).persistAliases r.visited

end Shelved

theorem Sound.record_of_entry {F : Prop} {T : String → Prop} (h : Sound F T w)
    (hid : ModuleId.Proper id) {content : ByteArray} {found : ModuleMeta}
    (he : w.disk.entry? (placeOf w.disk.workingDirectory
      (w.graph.store.recordPath (ModuleId.stem id))) = some (.file content))
    (hr : ModuleMeta.read? (recordText content) = some found) :
    ∃ m, Known F w.graph.store m ∧ found = m.record := by
  obtain ⟨hbelow, hend⟩ := recordPath_place w hid
  obtain ⟨m, hm, -, rfl⟩ := h.records _ content hbelow hend he
  rw [recordText, Text.Utf8.decode?_toUTF8, Option.getD_some] at hr
  exact ⟨m, hm, ModuleMeta.eq_of_read?_text hr⟩

theorem Known.exists_nameHash {F : Prop} (h : Known F store m) :
    ∀ x ∈ m.nameHash, ∃ text, x = contentHash text := by
  intro x hx
  have hn := h.names
  rw [Option.mem_def.1 hx] at hn
  exact hn.2

namespace Shelved

/-- An edit leaves what the store gives back for a module. -/
theorem edit (h : Shelved ids w) {network : Network} (ha : w.Admits (.edit disk network))
    (hw : w.Spares (.edit disk network)) (hkeep : (w.react (.edit disk network)).CanKeep ids)
    (hparted : (w.react (.edit disk network)).Parted ids) :
    Shelved ids (w.react (.edit disk network)) := by
  have hread : ∀ {path : String} {content : ByteArray},
      w.storePlace <+: placeOf w.disk.workingDirectory path →
      w.disk.readBytes path = .ok content → disk.readBytes path = .ok content := by
    intro path content hbelow hr
    obtain ⟨place, hl, he⟩ := Disk.readBytes_eq_ok hr
    rw [← Disk.locate_eq_ok hl] at hbelow
    exact Disk.readBytes_of_file (hw _ _ hl hbelow) ((ha.2 place hbelow).trans he)
  have htext : ∀ {path text : String}, w.storePlace <+: placeOf w.disk.workingDirectory path →
      readText? w.disk path = some text → readText? disk path = some text := fun hbelow hr ↦
    ArtifactStore.readText?_of_readBytes (hread hbelow (ArtifactStore.readText?_eq_some hr))
  refine ⟨h.toKept.edit ha hw hkeep, h.proper, hparted, fun id m hm ↦ ?_, fun id hid ↦ ?_⟩
  · have hm : w.Has id m := hm
    have hknown := h.sound.known hm
    have hproper : ModuleId.Proper id := hm.id_eq ▸ hknown.proper
    have hstem := ModuleId.staysBelow_stem hknown.proper
    have hload := h.loads id m hm
    refine loadPersisted?_of_reads (g := w.graph) hload
      ((h.maps id (hm.id_eq ▸ h.each id m hm)).isSome hload) (fun r hr ↦ ?_) (htext ?_)
      fun map _ ↦ htext ?_
    · obtain ⟨place, content, hl, he, hr⟩ := readRecord?_eq_some_iff.1 hr
      have hbelow := (recordPath_place w hproper).1
      rw [← Disk.locate_eq_ok hl] at hbelow
      exact readRecord?_eq_some_iff.2
        ⟨place, content, hw _ _ hl hbelow, (ha.2 place hbelow).trans he, hr⟩
    · rw [hknown.file, Module.stem]
      exact (codePath_place w hknown.proper hknown.exists_nameHash).1
    · rw [hknown.file, Module.stem]
      exact w.graph.store.root_prefix_sourceMapPath _ hstem hknown.exists_nameHash
  · intro hset content found he hr hs
    obtain ⟨hbelow, -⟩ := recordPath_place w (h.proper id hid)
    have hplace : placeOf disk.workingDirectory (w.graph.store.recordPath (ModuleId.stem id)) =
        placeOf w.disk.workingDirectory (w.graph.store.recordPath (ModuleId.stem id)) := by
      rw [ArtifactStore.recordPath, ArtifactStore.placeOf_path, ArtifactStore.placeOf_path, ha.1]
      rfl
    change disk.entry? (placeOf disk.workingDirectory
      (w.graph.store.recordPath (ModuleId.stem id))) = _ at he
    rw [hplace, ha.2 _ hbelow] at he
    obtain ⟨map, hmap⟩ := h.maps id hid hset content found he hr hs
    obtain ⟨m, hknown, rfl⟩ := h.sound.record_of_entry (h.proper id hid) he hr
    refine ⟨map, htext ?_ hmap⟩
    exact w.graph.store.root_prefix_sourceMapPath _ (ModuleId.staysBelow_stem (h.proper id hid))
      hknown.exists_nameHash

end Shelved

end Histories

end SiteCompiler.Graph
