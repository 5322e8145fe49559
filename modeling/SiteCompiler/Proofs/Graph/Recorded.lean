import SiteCompiler.Proofs.Graph.Sources

namespace SiteCompiler.Graph

open Disk (Place placeOf EndsIn Grows)
open ArtifactStore (recordEnding codeEnding)
open Digest (contentHash)

/-- The modules that are registered have a property, and so have those of which the store keeps
records. -/
structure Recorded (T : String → Prop) (Q : Module → Prop) (w : World) : Prop where
  registered : w.Each Q
  records : ∀ place content, w.storePlace <+: place → EndsIn place recordEnding →
    w.disk.entry? place = some (.file content) →
      ∃ m, m.hash = contentHash m.code ∧ T m.code ∧ Q m ∧ m.record.text.toUTF8 = content

/-- The source is that of the module's id, in its own dialect. -/
def Options.Plain (o : Options) : Prop :=
  o.source? = none ∧ o.dialect? = none

/-- A property that the modules have which are compiled, as options of a kind say, in a world or in one
that comes from it. It tells of a record and, under an assumption, of its code. -/
structure Standard (O : Options → Prop) (F : Prop) (v : World) (Q : Module → Prop) : Prop where
  default : O .default
  congr : ∀ {m m' : Module}, m'.record = m.record → (F → m'.code = m.code) → Q m → Q m'
  transpiled : ∀ {w : World} {id : String} {o : Options} {s : Source} {previous : Option Module}
    {m : Module}, v.Worked w → ModuleId.Proper id → O o →
    (w.obtain id o previous).1 = .ok (some s) →
    w.graph.transpile w.disk id s o previous = .ok m → Q m
  relinked : ∀ {g : Graph} {m m' : Module} {ds : List Dependency}, Known F g.store m → Q m →
    Resettled m.dependencies ds → g.relink m ds = .ok m' → Q m'

def Task.Within (O : Options → Prop) : Task → Prop
  | .visit _ o => O o
  | .settle .. => True

def Outcome.Satisfies (Q : Module → Prop) : Outcome → Prop
  | .found m => Q m
  | _ => True

section Runs

variable {O : Options → Prop} {F : Prop} {T : String → Prop} {Q : Module → Prop} {v w w' : World}
  {m : Module} {id : String}

theorem Recorded.grows (h : Recorded T Q w) {disk : Disk} {new : Place → ByteArray → Prop}
    (hg : Grows new w.disk disk)
    (hr : ∀ p c, new p c → EndsIn p recordEnding →
      ∃ m, m.hash = contentHash m.code ∧ T m.code ∧ Q m ∧ m.record.text.toUTF8 = c) :
    Recorded T Q { w with disk } := by
  refine ⟨h.registered, fun place content hbelow hend hentry ↦ ?_⟩
  have hplace : World.storePlace { w with disk } = w.storePlace := by
    rw [World.storePlace, World.storePlace, hg.workingDirectory]
  rw [hplace] at hbelow
  rcases hg.origin place content hentry with ho | hn
  · exact h.records place content hbelow hend ho
  · exact hr place content hn hend

theorem Recorded.sameModules (h : Recorded T Q w) (hs : World.SameModules w w') :
    Recorded T Q w' := by
  have hplace : w'.storePlace = w.storePlace := by
    rw [World.storePlace, World.storePlace, hs.store, hs.disk]
  refine ⟨fun id m hm ↦ h.registered id m (hs.has.1 hm), ?_⟩
  rw [hplace, hs.disk]
  exact h.records

theorem Recorded.finish (h : Recorded T Q w) (hm : Filed w.graph.store m) (ht : T m.code) (hq : Q m)
    (changed : Bool) : Recorded T Q (w.finish m changed) := by
  have hdisk : Recorded T Q { w with disk := (w.finish m changed).disk } := by
    rw [World.disk_finish]
    split
    · rw [World.persist, World.disk_persistBy]
      refine h.grows (ArtifactStore.writes_write _ _ _ _ _ _ w.disk) fun p c hn hend ↦ ?_
      rcases hn with ⟨-, rfl⟩ | hn
      · exact ⟨m, hm.hash, ht, hq, rfl⟩
      · rw [hm.file] at hn
        exact absurd hend (putsCode_ending hn).1
    · exact h
  obtain ⟨-, hs, -, -, -⟩ := w.modules_finish m changed
  have hplace : (w.finish m changed).storePlace =
      World.storePlace { w with disk := (w.finish m changed).disk } := by
    rw [World.storePlace, World.storePlace, hs]
  refine ⟨fun id m' hm' ↦ ?_, by rw [hplace]; exact hdisk.records⟩
  rcases World.eq_or_has_of_has_finish hm' with rfl | hm'
  · exact hq
  · exact h.registered id m' hm'

theorem Recorded.persistAlias (h : Recorded T Q w) (a : Alias) :
    Recorded T Q (w.persistAlias a) := by
  rw [World.persistAlias]
  split
  · exact h
  · have hg := ArtifactStore.writes_writeCode
      (w.graph.store.codePath a.target.stem (some a.hashPrefix)) a.target.code a.target.sourceMap
      w.disk
    have hr := h.grows hg fun p c hn hend ↦ absurd hend (putsCode_ending hn).1
    exact hr.sameModules (World.sameModules_persistBy w _)

theorem Recorded.persistAliases (h : Recorded T Q w) (visited : List String) :
    Recorded T Q (w.persistAliases visited) := by
  rw [World.persistAliases]
  generalize w.graph.aliases.filter (fun a ↦ visited.contains a.target.id) = as
  induction as generalizing w with
  | nil => exact h
  | cons a as ih =>
    rw [List.foldl_cons]
    exact ih (h.persistAlias a)

/-- What the store gives back has the property, since its record is that of a module which has it,
and its code is the code of that module. -/
theorem Recorded.load (h : Recorded T Q w) (hT : Faithful F T) (hs : Sound F T w)
    (hQ : Standard O F v Q) (hid : ModuleId.Proper id)
    (hl : w.graph.loadPersisted? w.disk id = some m) : Q m := by
  obtain ⟨-, ht⟩ := hs.load hT hid hl
  obtain ⟨found, code, map, hr, -, -, hcode, rfl⟩ := loadPersisted?_eq_some hl
  obtain ⟨octets, hentry, hread⟩ := readRecord?_eq_some hr
  obtain ⟨hbelow, hend⟩ := recordPath_place w hid
  obtain ⟨m', hm', hT', hq, rfl⟩ := h.records _ octets hbelow hend hentry
  rw [ArtifactStore.recordText, Text.Utf8.decode?_toUTF8, Option.getD_some] at hread
  obtain rfl := ModuleMeta.eq_of_read?_text hread
  have he : F → code = m'.code := fun hF ↦ hT hF code m'.code ht hT' (hcode.trans hm')
  exact hQ.congr (m := m') rfl he hq

theorem Recorded.previous? (h : Recorded T Q w) (hT : Faithful F T) (hs : Sound F T w)
    (hQ : Standard O F v Q) (hid : ModuleId.Proper id) (hm : w.previous? id = some m) : Q m := by
  rcases Option.or_eq_some_iff.1 hm with hm | ⟨-, hm⟩
  · exact h.registered id m (.inl hm)
  · exact h.load hT hs hQ hid hm

theorem Recorded.prepares (h : Recorded T Q w) (hT : Faithful F T) (hs : Sound F T w)
    (hQ : Standard O F v Q) (hv : v.Worked w) (hid : ModuleId.Proper id) {o : Options} (ho : O o)
    {changed : Bool} (hp : Prepares w id o m changed) : Q m := by
  have hname := hp.id_eq
  cases hp with
  | compiled hs ht => exact hQ.transpiled hv hid ho hs ht
  | @recorded m _ hm =>
    have hr : m.isRemote = ModuleId.isRemote id := by
      rw [← hname]
      rcases Option.or_eq_some_iff.1 hm with hm | ⟨-, hm⟩
      · exact (hs.modules id m hm).1.isRemote
      · exact (hs.load hT hid hm).1.isRemote
    rw [← hr]
    exact h.previous? hT hs hQ hid hm

structure Run.Recorded (F : Prop) (T : String → Prop) (Q : Module → Prop) (v : World) (r : Run) :
    Prop where
  sound : r.Sound F T
  worked : v.Worked r.world
  world : Graph.Recorded T Q r.world
  stack : ∀ m ∈ r.stack, Q m

namespace Run.Recorded

variable {r r' : Run} {o : Options} {changed : Bool} {world : World} {t : Task} {out : Outcome}

theorem inside (h : r.Recorded F T Q v) (hT : Faithful F T) (hQ : Standard O F v Q)
    (hid : ModuleId.Proper id) (ho : O o)
    (hp : r.world.prepare id o = (.ok (m, changed), world)) :
    Q m ∧ ((r.entered id world).inside m).Recorded F T Q v := by
  have hm := h.world.prepares hT h.sound.world hQ h.worked hid ho (Prepares.of_eq hp)
  obtain ⟨-, hs, -⟩ := h.sound.inside hT hid hp
  refine ⟨hm, hs, h.worked.trans (World.worked_prepare hp),
    h.world.sameModules (World.prepare_eq hp).1, fun m' hm' ↦ ?_⟩
  rcases List.mem_cons.1 hm' with rfl | hm'
  · exact hm
  · exact h.stack m' hm'

theorem after (h : r.Recorded F T Q v) (hT : Faithful F T) (hy : Yields r t out r')
    (ht : t.Proper) (hout : ∀ stop, out ≠ .stopped stop) (htexts : r'.world.Each (T ·.code))
    (hw : Graph.Recorded T Q r'.world) : r'.Recorded F T Q v := by
  obtain ⟨hframe, hst⟩ := hy.frame
  have hst := hst hout
  have hweak : r.Sound False fun _ ↦ True :=
    ⟨h.sound.world.weaken, fun m hm ↦ (h.sound.stack m hm).weaken⟩
  exact ⟨h.sound.after hframe hst (hy.sound hT h.sound ht htexts).1,
    h.worked.trans (hy.worked hweak ht), hw, hst ▸ h.stack⟩

end Run.Recorded

theorem Yields.recorded (hT : Faithful F T) (hQ : Standard O F v Q) {r r' : Run} {t : Task}
    {out : Outcome} (h : Yields r t out r') (hr : r.Recorded F T Q v) (ht : t.Proper)
    (hto : t.Within O) (htexts : r'.world.Each (T ·.code)) :
    Recorded T Q r'.world ∧ out.Satisfies Q := by
  have hdefault := hQ.default
  induction h with
  | deep => exact ⟨hr.world, trivial⟩
  | vendored hm => exact ⟨hr.world, hr.world.registered _ _ (.inr hm)⟩
  | again hm hv hk =>
    refine ⟨hr.world, ?_⟩
    rcases Option.or_eq_some_iff.1 hk with hk | ⟨-, hk⟩
    · exact hr.stack _ (List.mem_of_find?_eq_some hk)
    · exact hr.world.registered _ _ (.inl hk)
  | lost => exact ⟨hr.world, trivial⟩
  | unprepared _ _ hp => exact ⟨hr.world.sameModules (World.prepare_eq hp).1, trivial⟩
  | @leaf r id o m changed world hm hv hp _ =>
    obtain ⟨hq, hin⟩ := hr.inside hT hQ ht hto hp
    have ht := htexts m.id m (World.has_finish_self world m changed)
    exact ⟨hin.world.finish (hin.sound.stack m List.mem_cons_self).toFiled ht hq changed, hq⟩
  | @dropped r inner id o m changed world stop hm hv hp ha hb ih =>
    obtain ⟨-, hin⟩ := hr.inside hT hQ ht hto hp
    obtain ⟨-, -, ht'⟩ := hr.sound.inside hT ht hp
    exact ⟨(ih hin ht' trivial htexts).1, trivial⟩
  | @kept r inner id o m changed world ds hm hv hp ha hb ih =>
    obtain ⟨hq, hin⟩ := hr.inside hT hQ ht hto hp
    obtain ⟨hknown, -, ht'⟩ := hr.sound.inside hT ht hp
    have hmid := hb.frame.1.each_inside hp hr.sound.world.each rfl htexts
    have hstore := hb.frame.1.store.trans (World.prepare_eq hp).1.store
    refine ⟨(ih hin ht' trivial hmid).1.finish (hstore ▸ hknown.toFiled) ?_ hq changed, hq⟩
    exact htexts m.id m (World.has_finish_self inner.world m changed)
  | @broken r inner id o m changed world ds stop hm hv hp ha hb hl ih =>
    obtain ⟨-, hin⟩ := hr.inside hT hQ ht hto hp
    obtain ⟨-, -, ht'⟩ := hr.sound.inside hT ht hp
    exact ⟨(ih hin ht' trivial htexts).1, trivial⟩
  | @relinked r inner id o m m' changed world ds hm hv hp ha hb hl ih =>
    obtain ⟨hq, hin⟩ := hr.inside hT hQ ht hto hp
    obtain ⟨hknown, -, ht'⟩ := hr.sound.inside hT ht hp
    have hmid := hb.frame.1.each_inside hp hr.sound.world.each (relink_id hl).1 htexts
    have hstore := hb.frame.1.store.trans (World.prepare_eq hp).1.store
    obtain ⟨-, hd⟩ := hb.sound hT hin.sound ht' hmid
    rw [← hstore] at hknown
    have hq' := hQ.relinked hknown hq hd hl
    refine ⟨(ih hin ht' trivial hmid).1.finish (hknown.relink hd hl).toFiled ?_ hq' true, hq'⟩
    exact htexts m'.id m' (World.has_finish_self inner.world m' true)
  | done => exact ⟨hr.world, trivial⟩
  | failed hf ih => exact ⟨(ih hr (ht _ List.mem_cons_self).2 hdefault htexts).1, trivial⟩
  | @cut r r' r'' importer d rest m stop hf ho ih ih' =>
    have hvisit := (ht d List.mem_cons_self).2
    have hmid := hf.frame.1.each ho.frame.1 hr.sound.world.each htexts
    have hr' := hr.after hT hf hvisit (fun _ h ↦ Outcome.noConfusion h) hmid
      (ih hr hvisit hdefault hmid).1
    exact ⟨(ih' hr' (fun d' hd ↦ ht d' (List.mem_cons_of_mem d hd)) trivial htexts).1, trivial⟩
  | @next r r' r'' importer d rest settled m changed hf ho ih ih' =>
    have hvisit := (ht d List.mem_cons_self).2
    have hmid := hf.frame.1.each ho.frame.1 hr.sound.world.each htexts
    have hr' := hr.after hT hf hvisit (fun _ h ↦ Outcome.noConfusion h) hmid
      (ih hr hvisit hdefault hmid).1
    exact ⟨(ih' hr' (fun d' hd ↦ ht d' (List.mem_cons_of_mem d hd)) trivial htexts).1, trivial⟩

end Runs

section Histories

variable {O : Options → Prop} {F : Prop} {T : String → Prop} {Q : Module → Prop} {w : World}

theorem Sound.run (h : Sound F T w) : (Run.start w).Sound F T :=
  ⟨h, fun _ hm ↦ by cases hm⟩

theorem Recorded.compile (hT : Faithful F T) (hQ : Standard O F w Q) (hs : Sound F T w)
    (h : Recorded T Q w) (text : String) {o : Options} (ho : O o)
    (ht : (w.compile text o).2.Each (T ·.code)) : Recorded T Q (w.compile text o).2 := by
  have hstart : (Run.start w).Recorded F T Q w := ⟨hs.run, .refl w, h, fun _ hm ↦ by cases hm⟩
  rcases compile_cases w text o with ⟨cause, -, hc⟩ | ⟨id, r, he, ⟨stop, hy, hc⟩ | ⟨m, hy, hc⟩⟩
  · rw [hc]
    exact h
  · rw [hc] at ht ⊢
    exact (hy.recorded hT hQ hstart (proper_entryId he) ho ht).1
  · rw [hc] at ht ⊢
    have hsame := World.sameGraph_persistAliases r.world r.visited
    have ht' : r.world.Each (T ·.code) := fun id m hm ↦ ht id m (hsame.has.2 hm)
    exact (hy.recorded hT hQ hstart (proper_entryId he) ho ht').1.persistAliases r.visited

/-- An event in which sources are compiled as options of a kind say. -/
def Event.Within (O : Options → Prop) : Event → Prop
  | .compile _ o => O o
  | _ => True

theorem Recorded.react (hT : Faithful F T) (hQ : Standard O F w Q) (hs : Sound F T w)
    (h : Recorded T Q w) {e : Event} (he : w.Admits e) (hto : e.Within O)
    (ht : (w.react e).Each (T ·.code)) : Recorded T Q (w.react e) := by
  cases e with
  | compile text o => exact h.compile hT hQ hs text hto ht
  | remove id =>
    refine ⟨fun id' m hm ↦ h.registered id' m (hm.imp_left fun hm ↦ ?_), h.records⟩
    change (w.graph.modules.erase id).find? id' = some m at hm
    rw [ModuleTable.find?_erase] at hm
    split at hm
    · cases hm
    · exact hm
  | edit disk network =>
    obtain ⟨hplace, hfiles⟩ := he
    refine ⟨h.registered, fun place content hbelow hend hentry ↦ ?_⟩
    change placeOf disk.workingDirectory w.graph.store.root <+: place at hbelow
    rw [hplace] at hbelow
    exact h.records place content hbelow hend ((hfiles place hbelow).symm.trans hentry)
  | restart folder settings =>
    refine ⟨fun id m hm ↦ ?_, h.records⟩
    rcases hm with hm | hm <;> cases hm

theorem recorded_of_fresh (h : w.Fresh) : Recorded T Q w := by
  refine ⟨fun id m hm ↦ ?_, fun place content hbelow hend hentry ↦ ?_⟩
  · rcases hm with hm | hm
    · rw [module?, h.modules] at hm
      cases hm
    · rw [remoteModule?, h.remote] at hm
      cases hm
  · have hs : Sound False (fun _ ↦ False) w := sound_of_fresh h
    obtain ⟨m, -, hf, -⟩ := hs.records place content hbelow hend hentry
    exact hf.elim

/-- In the course of a history of such events all that is registered or recorded has the
property. -/
theorem recorded_of_history {allowed : World → Event → Prop} {ws : List World}
    (h : History allowed ws) (hto : ∀ w e, allowed w e → e.Within O) (hT : Faithful F T)
    (ht : ∀ w ∈ ws, w.Each (T ·.code)) (hQ : ∀ w ∈ ws, Standard O F w Q) :
    ∀ w ∈ ws, Recorded T Q w := by
  have hsound := sound_of_history h hT ht
  induction h with
  | start hf =>
    intro w hw
    rw [List.mem_singleton.1 hw]
    exact recorded_of_fresh hf
  | @step w ws e hb ha he ih =>
    have hbefore := ih (fun v hv ↦ ht v (List.mem_cons_of_mem _ hv))
      (fun v hv ↦ hQ v (List.mem_cons_of_mem _ hv)) fun v hv ↦ hsound v (List.mem_cons_of_mem _ hv)
    intro v hv
    rcases List.mem_cons.1 hv with rfl | hv
    · have hw : w ∈ w.react e :: w :: ws := List.mem_cons_of_mem _ List.mem_cons_self
      exact (hbefore w List.mem_cons_self).react hT (hQ w hw) (hsound w hw) ha (hto w e he)
        (ht _ List.mem_cons_self)
    · exact hbefore v hv

end Histories
end SiteCompiler.Graph
