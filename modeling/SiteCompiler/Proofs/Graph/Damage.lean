import SiteCompiler.Proofs.Graph.Coherence

namespace SiteCompiler.Graph

open Disk (Place placeOf EndsIn Grows)
open ArtifactStore (recordEnding codeEnding mapEnding Puts PutsCode recordText)
open Digest (contentHash Cuttable)

structure Covers (H : String → Prop) : Prop where
  missing : H ""
  hash : ∀ text, H (contentHash text)

/-- A module has the hash of some text and a file that code can have, and the hashes of its
dependencies have a property. -/
structure Formed (H : String → Prop) (store : ArtifactStore) (m : Module) : Prop where
  hash : ∃ text, m.hash = contentHash text
  file : ∃ hash, m.file = store.codePath m.stem hash
  dependencies : ∀ d ∈ m.dependencies, H d.hash

/-- The hashes of dependencies have a property in every record that lies where the one of its module
belongs. -/
def RecordedHashes (H : String → Prop) (store : ArtifactStore) (disk : Disk) : Prop :=
  ∀ id octets found, disk.entry? (placeOf disk.workingDirectory
    (store.recordPath (ModuleId.stem id))) = some (.file octets) →
      ModuleMeta.read? (recordText octets) = some found → found.sourceFile = id →
        ∀ d ∈ found.dependencies, H d.hash

def StoreFile (p : Place) : Prop :=
  EndsIn p recordEnding ∨ EndsIn p codeEnding ∨ EndsIn p mapEnding

structure World.Hashed (H : String → Prop) (w : World) : Prop where
  modules : w.Each (Formed H w.graph.store)
  records : RecordedHashes H w.graph.store w.disk

variable {H : String → Prop} {w w' : World} {m m' : Module} {store : ArtifactStore}

theorem formed_sealed {g : Graph} (h : ∀ d ∈ m.dependencies, H d.hash) :
    Formed H g.store (g.sealed m) :=
  ⟨⟨m.code, by simp only [sealed]⟩,
    ⟨(g.sealed m).nameHash, by simp only [sealed, codePath, Module.stem, Module.nameHash]⟩, h⟩

theorem Formed.relink {g : Graph} {ds : List Dependency} (h : Formed H g.store m)
    (hd : ∀ d ∈ ds, H d.hash) (hl : g.relink m ds = .ok m') : Formed H g.store m' := by
  obtain ⟨changed, code, -, rfl⟩ := relink_eq_ok hl
  cases changed with
  | true => exact formed_sealed hd
  | false => exact ⟨h.hash, h.file, hd⟩

theorem cuttable_of_mem {ds : List Dependency} (hc : ∀ hash, H hash → Cuttable hash)
    (hd : ∀ d ∈ ds, H d.hash) : ∀ hash ∈ ds.map (·.hash), Cuttable hash := by
  intro hash hm
  obtain ⟨d, hmem, rfl⟩ := List.mem_map.1 hm
  exact hc _ (hd d hmem)

theorem relink_ne_error {g : Graph} {ds : List Dependency} {stop : Stop}
    (hc : ∀ hash ∈ ds.map (·.hash), Cuttable hash) : g.relink m ds ≠ .error stop := by
  rw [relink]
  dsimp only
  rcases hf : HashSlot.fill m.code m.slots (ds.map (·.hash)) with _ | ⟨_ | _, code⟩ <;> rw [hf]
  · obtain ⟨slot, -, hash, hget, hbad⟩ := HashSlot.fill_eq_none.1 hf
    exact absurd (hc hash (List.mem_of_getElem? hget)) hbad
  · exact fun h ↦ by cases h
  · exact fun h ↦ by cases h

theorem transpile_ne_brokenHash {g : Graph} {disk : Disk} {id id' : String} {s : Source} {o : Options}
    {previous : Option Module} (hc : ∀ path, Cuttable (g.knownHash previous path)) :
    g.transpile disk id s o previous ≠ .error (.brokenHash id') := by
  rw [transpile]
  dsimp only
  cases Compiled.compile (g.linkage disk id) (o.dialect?.getD s.dialect) s.text
    g.settings.sourceMap with
  | error cause => exact fun h ↦ by cases h
  | ok c =>
    dsimp only
    split
    · next hf =>
      obtain ⟨slot, -, hash, hget, hbad⟩ := HashSlot.fill_eq_none.1 hf
      obtain ⟨d, hd, rfl⟩ := List.mem_map.1 (List.mem_of_getElem? hget)
      obtain ⟨path, -, rfl⟩ := List.mem_map.1 hd
      exact absurd (hc path) hbad
    · exact fun h ↦ by cases h

namespace World.Hashed

theorem withDisk (h : w.Hashed H) {disk : Disk} (hr : RecordedHashes H w.graph.store disk) :
    World.Hashed H { w with disk } :=
  ⟨h.modules, hr⟩

theorem sameModules (h : w.Hashed H) (hs : SameModules w w') : w'.Hashed H := by
  refine ⟨fun id m hm ↦ ?_, ?_⟩
  · rw [hs.store]
    exact h.modules id m (hs.has.1 hm)
  · rw [hs.disk, hs.store]
    exact h.records

variable {id : String} {o : Options} {changed : Bool}

theorem previous (h : w.Hashed H) (hm : w.previous? id = some m) : Formed H w.graph.store m := by
  rcases Option.or_eq_some_iff.1 hm with hm | ⟨-, hm⟩
  · exact h.modules id m (.inl hm)
  · obtain ⟨found, code, map, hr, rfl, -, hcode, rfl⟩ := loadPersisted?_eq_some hm
    obtain ⟨octets, hentry, hread⟩ := readRecord?_eq_some hr
    refine ⟨⟨code, hcode.symm⟩, ⟨if found.isRemote then none else some found.hash, ?_⟩,
      h.records _ octets found hentry hread rfl⟩
    rw [Module.stem]

theorem knownHash (hH : Covers H) (h : w.Hashed H) (path : String) :
    H (w.graph.knownHash (w.previous? id) path) := by
  rw [Graph.knownHash]
  split
  · next m hm =>
    obtain ⟨text, ht⟩ := (h.modules path m ((Option.or_eq_some_iff.1 hm).imp (fun h ↦ h) And.right)).hash
    exact ht ▸ hH.hash text
  · split
    · next d hd =>
      have hm := List.mem_of_find?_eq_some hd
      cases hp : w.previous? id with
      | none =>
        rw [hp] at hm
        exact (List.not_mem_nil hm).elim
      | some m =>
        rw [hp] at hm
        exact (h.previous hp).dependencies d hm
    · exact hH.missing

theorem prepares (hH : Covers H) (h : w.Hashed H) (hp : Prepares w id o m changed) :
    Formed H w.graph.store m := by
  cases hp with
  | compiled _ ht =>
    obtain ⟨c, _, code, -, -, rfl⟩ := transpile_eq_ok ht
    refine formed_sealed fun d hd ↦ ?_
    obtain ⟨path, -, rfl⟩ := List.mem_map.1 hd
    exact h.knownHash hH path
  | recorded _ hm =>
    obtain ⟨hhash, hfile, hd⟩ := h.previous hm
    exact ⟨hhash, hfile, hd⟩

theorem prepare_ne_brokenHash (hH : Covers H) (hc : ∀ hash, H hash → Cuttable hash) (h : w.Hashed H)
    (id' : String) : (w.prepare id o).1 ≠ .error (.brokenHash id') := by
  have hs := w.sameModules_obtain id o (w.previous? id)
  rw [prepare, show (w.graph.modules.find? id).or (w.graph.loadPersisted? w.disk id) = w.previous? id
    from rfl]
  rcases ho : w.obtain id o (w.previous? id) with ⟨cause | (_ | s), w₁⟩
  · exact fun h ↦ by cases h
  · dsimp only
    cases w.previous? id with
    | none => exact fun h ↦ by cases h
    | some m => exact fun h ↦ by cases h
  · rw [ho] at hs
    dsimp only
    rw [hs.transpile]
    have hne := @transpile_ne_brokenHash w.graph w.disk id id' s o (w.previous? id) fun path ↦ hc _ (h.knownHash hH path)
    split
    · next stop hstop => exact fun he ↦ hne (hstop.trans (by rw [Except.error.inj he]))
    · exact fun h ↦ by cases h

theorem grows (h : w.Hashed H) {disk : Disk} {new : Place → ByteArray → Prop}
    (hg : Grows new w.disk disk) (hn : ∀ p c, new p c → EndsIn p recordEnding →
      ∃ m, Formed H w.graph.store m ∧ m.record.text.toUTF8 = c) :
    RecordedHashes H w.graph.store disk := by
  intro id octets found hentry hread hid
  rw [hg.workingDirectory] at hentry
  rcases hg.origin _ octets hentry with ho | hnew
  · exact h.records id octets found ho hread hid
  · obtain ⟨m, hm, rfl⟩ := hn _ octets hnew (w.graph.store.endsIn_recordPath _ _)
    rw [recordText, Text.Utf8.decode?_toUTF8, Option.getD_some] at hread
    obtain rfl := ModuleMeta.eq_of_read?_text hread
    exact hm.dependencies

theorem stored_of_putsCode {stem : String} {hash : Option String} {code : String}
    {sourceMap : Option String} {wd p : Place} {c : ByteArray}
    (h : PutsCode (store.codePath stem hash) code sourceMap wd p c) : StoreFile p := by
  rcases h with ⟨rfl, -⟩ | ⟨map, -, rfl, -⟩
  · exact .inr (.inl (store.endsIn_codePath wd stem hash))
  · exact .inr (.inr (ArtifactStore.endsIn_sourceMapPath wd _))

theorem finish (h : w.Hashed H) (hm : Formed H w.graph.store m) (changed : Bool) :
    (w.finish m changed).Hashed H ∧
      Grows (fun p _ ↦ StoreFile p) w.disk (w.finish m changed).disk := by
  obtain ⟨hash, hfile⟩ := hm.file
  have hwrites := ArtifactStore.writes_write w.graph.store m.stem m.record.text m.file m.code
    m.sourceMap w.disk
  have hdisk : RecordedHashes H w.graph.store (w.finish m changed).disk ∧
      Grows (fun p _ ↦ StoreFile p) w.disk (w.finish m changed).disk := by
    rw [disk_finish]
    split
    · rw [persist, disk_persistBy]
      refine ⟨h.grows hwrites fun p c hn hend ↦ ?_, hwrites.mono fun p c hn ↦ ?_⟩
      · rcases hn with ⟨-, rfl⟩ | hn
        · exact ⟨m, hm, rfl⟩
        · rw [hfile] at hn
          exact absurd hend (putsCode_ending hn).1
      · rcases hn with ⟨rfl, -⟩ | hn
        · exact .inl (w.graph.store.endsIn_recordPath _ _)
        · rw [hfile] at hn
          exact stored_of_putsCode hn
    · exact ⟨h.records, .refl _ _⟩
  have hstore := (w.modules_finish m changed).2.1
  refine ⟨⟨fun id m' hm' ↦ ?_, hstore ▸ hdisk.1⟩, hdisk.2⟩
  rw [hstore]
  rcases eq_or_has_of_has_finish hm' with rfl | hm'
  · exact hm
  · exact h.modules id m' hm'

theorem persistAlias (h : w.Hashed H) (a : Alias) :
    (w.persistAlias a).Hashed H ∧ Grows (fun p _ ↦ StoreFile p) w.disk (w.persistAlias a).disk := by
  rw [World.persistAlias]
  split
  · exact ⟨h, .refl _ _⟩
  · have hwrites := ArtifactStore.writes_writeCode
      (w.graph.store.codePath a.target.stem (some a.hashPrefix)) a.target.code a.target.sourceMap
      w.disk
    have hrecords := h.grows hwrites fun p c hn hend ↦ absurd hend (putsCode_ending hn).1
    have hs := sameModules_persistBy w (ArtifactStore.writeCode
      (w.graph.store.codePath a.target.stem (some a.hashPrefix)) a.target.code a.target.sourceMap)
    refine ⟨(h.withDisk hrecords).sameModules hs, ?_⟩
    rw [disk_persistBy]
    exact hwrites.mono fun p c hn ↦ stored_of_putsCode hn

theorem persistAliases (h : w.Hashed H) (visited : List String) :
    (w.persistAliases visited).Hashed H ∧
      Grows (fun p _ ↦ StoreFile p) w.disk (w.persistAliases visited).disk := by
  have hall : ∀ (as : List Alias) (w : World), w.Hashed H → (as.foldl World.persistAlias w).Hashed H ∧
      Grows (fun p _ ↦ StoreFile p) w.disk (as.foldl World.persistAlias w).disk := by
    intro as
    induction as with
    | nil => exact fun w h ↦ ⟨h, .refl _ _⟩
    | cons a as ih =>
      intro w h
      rw [List.foldl_cons]
      obtain ⟨h', hg⟩ := h.persistAlias a
      obtain ⟨h'', hg'⟩ := ih _ h'
      exact ⟨h'', hg.trans hg'⟩
  rw [World.persistAliases]
  exact hall _ w h

end World.Hashed

structure Run.Hashed (H : String → Prop) (r : Run) : Prop where
  world : r.world.Hashed H
  stack : ∀ m ∈ r.stack, Formed H r.world.graph.store m

def Task.Hashed (H : String → Prop) : Task → Prop
  | .visit .. => True
  | .settle _ ds => ∀ d ∈ ds, H d.hash

/-- What comes of a task: a hash that cannot be cut stops it only if hashes need not be such that
they can. -/
def Outcome.Formed (H : String → Prop) (store : ArtifactStore) : Outcome → Prop
  | .found m => Graph.Formed H store m
  | .settled ds _ => ∀ d ∈ ds, H d.hash
  | .stopped stop => (∀ hash, H hash → Cuttable hash) → ∀ id, stop ≠ .brokenHash id

namespace Run.Hashed

variable {r r' : Run} {id : String} {o : Options} {changed : Bool} {world : World}

theorem inside (hH : Covers H) (h : r.Hashed H)
    (hp : r.world.prepare id o = (.ok (m, changed), world)) :
    Graph.Formed H r.world.graph.store m ∧ ((r.entered id world).inside m).Hashed H := by
  have hm := h.world.prepares hH (Prepares.of_eq hp)
  have hsame := (World.prepare_eq hp).1
  refine ⟨hm, h.world.sameModules hsame, fun m' hm' ↦ ?_⟩
  change Graph.Formed H world.graph.store m'
  rw [hsame.store]
  rcases List.mem_cons.1 hm' with rfl | hm'
  · exact hm
  · exact h.stack m' hm'

theorem after (h : r.Hashed H) {t : Task} {out : Outcome} (hy : Yields r t out r')
    (hout : ∀ stop, out ≠ .stopped stop) (hw : r'.world.Hashed H) : r'.Hashed H := by
  refine ⟨hw, ?_⟩
  rw [hy.frame.2 hout, hy.frame.1.store]
  exact h.stack

end Run.Hashed

/-- A part of a run keeps the property of the hashes, and writes nothing but records, code and source
maps. -/
theorem Yields.hashed (hH : Covers H) {r r' : Run} {t : Task} {out : Outcome}
    (h : Yields r t out r') (hs : r.Hashed H) (ht : t.Hashed H) :
    r'.world.Hashed H ∧ out.Formed H r.world.graph.store ∧
      Grows (fun p _ ↦ StoreFile p) r.world.disk r'.world.disk := by
  induction h with
  | deep => exact ⟨hs.world, fun _ _ h ↦ (by cases h), .refl _ _⟩
  | vendored hr => exact ⟨hs.world, hs.world.modules _ _ (.inr hr), .refl _ _⟩
  | again _ _ hk =>
    refine ⟨hs.world, ?_, .refl _ _⟩
    rcases Option.or_eq_some_iff.1 hk with hk | ⟨-, hk⟩
    · exact hs.stack _ (List.mem_of_find?_eq_some hk)
    · exact hs.world.modules _ _ (.inl hk)
  | lost => exact ⟨hs.world, fun _ _ h ↦ (by cases h), .refl _ _⟩
  | @unprepared r id o stop world _ _ hp =>
    have hsame := (World.prepare_eq hp).1
    refine ⟨hs.world.sameModules hsame, fun hc id' he ↦ ?_, ?_⟩
    · exact hs.world.prepare_ne_brokenHash hH hc id' (by rw [hp, he])
    · change Grows _ _ world.disk
      rw [hsame.disk]
      exact .refl _ _
  | @leaf r id o m changed world _ _ hp _ =>
    obtain ⟨hm, hs'⟩ := hs.inside hH hp
    have hsame := (World.prepare_eq hp).1
    obtain ⟨hw, hg⟩ := hs'.world.finish (hsame.store ▸ hm : Formed H world.graph.store m) changed
    exact ⟨hw, hm, hsame.disk ▸ hg⟩
  | @dropped r inner id o m changed world stop _ _ hp _ _ ih =>
    obtain ⟨hm, hs'⟩ := hs.inside hH hp
    obtain ⟨hw, hout, hg⟩ := ih hs' hm.dependencies
    exact ⟨hw, hout, (World.prepare_eq hp).1.disk ▸ hg⟩
  | @kept r inner id o m changed world ds _ _ hp _ hb ih =>
    obtain ⟨hm, hs'⟩ := hs.inside hH hp
    obtain ⟨hw, -, hg⟩ := ih hs' hm.dependencies
    have hsame := (World.prepare_eq hp).1
    have hstore := hb.frame.1.store.trans hsame.store
    obtain ⟨hw', hg'⟩ := hw.finish (hstore ▸ hm : Formed H inner.world.graph.store m) changed
    exact ⟨hw', hm, (hsame.disk ▸ hg).trans hg'⟩
  | @broken r inner id o m changed world ds stop _ _ hp _ _ hl ih =>
    obtain ⟨hm, hs'⟩ := hs.inside hH hp
    obtain ⟨hw, hd, hg⟩ := ih hs' hm.dependencies
    exact ⟨hw, fun hc _ _ ↦ relink_ne_error (cuttable_of_mem hc hd) hl,
      (World.prepare_eq hp).1.disk ▸ hg⟩
  | @relinked r inner id o m m' changed world ds _ _ hp _ hb hl ih =>
    obtain ⟨hm, hs'⟩ := hs.inside hH hp
    obtain ⟨hw, hd, hg⟩ := ih hs' hm.dependencies
    have hsame := (World.prepare_eq hp).1
    have hstore := hb.frame.1.store.trans hsame.store
    have hm' : Formed H inner.world.graph.store m' :=
      (hstore ▸ hm : Formed H inner.world.graph.store m).relink hd hl
    obtain ⟨hw', hg'⟩ := hw.finish hm' true
    exact ⟨hw', hstore ▸ hm', (hsame.disk ▸ hg).trans hg'⟩
  | done => exact ⟨hs.world, fun _ hm ↦ (List.not_mem_nil hm).elim, .refl _ _⟩
  | failed _ ih => exact ih hs trivial
  | cut hf _ ih ih' =>
    obtain ⟨hw, -, hg⟩ := ih hs trivial
    obtain ⟨hw', hout, hg'⟩ := ih' (hs.after hf (fun _ h ↦ Outcome.noConfusion h) hw)
      fun d hd ↦ ht d (List.mem_cons_of_mem _ hd)
    exact ⟨hw', hout, hg.trans hg'⟩
  | @next r r' r'' importer d rest settled m changed hf _ ih ih' =>
    obtain ⟨hw, hm, hg⟩ := ih hs trivial
    obtain ⟨hw', hd, hg'⟩ := ih' (hs.after hf (fun _ h ↦ Outcome.noConfusion h) hw)
      fun d hd ↦ ht d (List.mem_cons_of_mem _ hd)
    refine ⟨hw', fun d' hd' ↦ ?_, hg.trans hg'⟩
    rcases List.mem_cons.1 hd' with rfl | hd'
    · rw [Run.settledAs]
      split
      · obtain ⟨text, htext⟩ := Formed.hash hm
        exact htext ▸ hH.hash text
      · exact ht d List.mem_cons_self
    · exact hd d' hd'

/-- A call keeps the property of the hashes, and writes nothing but records, code and source maps. -/
theorem World.Hashed.compile (hH : Covers H) (h : w.Hashed H) (text : String) (o : Options) :
    (w.compile text o).2.Hashed H ∧
      Grows (fun p _ ↦ StoreFile p) w.disk (w.compile text o).2.disk ∧
      ((∀ hash, H hash → Cuttable hash) → ∀ id, (w.compile text o).1 ≠ .error (.brokenHash id)) := by
  have hstart : (Run.start w).Hashed H := ⟨h, fun _ hm ↦ (List.not_mem_nil hm).elim⟩
  rcases compile_cases w text o with ⟨cause, -, hc⟩ | ⟨id, r, -, ⟨stop, hy, hc⟩ | ⟨m, hy, hc⟩⟩
  · rw [hc]
    exact ⟨h, .refl _ _, fun _ _ h ↦ by cases h⟩
  · obtain ⟨hw, hout, hg⟩ := hy.hashed hH hstart trivial
    rw [hc]
    exact ⟨hw, hg, fun hcut id he ↦ hout hcut id (Except.error.inj he)⟩
  · obtain ⟨hw, -, hg⟩ := hy.hashed hH hstart trivial
    obtain ⟨hw', hg'⟩ := hw.persistAliases r.visited
    rw [hc]
    exact ⟨hw', hg.trans hg', fun _ _ h ↦ by cases h⟩

inductive World.Called (w : World) : World → Prop
  | start : Called w w
  | call {v : World} (before : Called w v) (text : String) (o : Options) :
      Called w (v.compile text o).2

theorem World.Hashed.called (hH : Covers H) (h : w.Hashed H) (hc : w.Called w') : w'.Hashed H := by
  induction hc with
  | start => exact h
  | call _ text o ih => exact (ih.compile hH text o).1

end SiteCompiler.Graph
