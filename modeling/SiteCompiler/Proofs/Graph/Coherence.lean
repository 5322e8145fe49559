import SiteCompiler.Proofs.Graph.History

namespace SiteCompiler.Graph

open Disk (Place placeOf EndsIn Grows)
open ArtifactStore (recordEnding codeEnding Puts PutsCode)
open Digest (contentHash IsHash)
open HashSlot (Linked)

structure Filed (store : ArtifactStore) (m : Module) : Prop where
  hash : m.hash = contentHash m.code
  file : m.file = store.codePath m.stem m.nameHash
  isRemote : m.isRemote = ModuleId.isRemote m.id
  proper : ModuleId.Proper m.id
  distinct : (m.dependencies.map (·.path)).Nodup
  dependencies : ∀ d ∈ m.dependencies, IsHash d.hash ∧ ModuleId.Proper d.path ∧
    (ModuleId.isRemote m.id → ModuleId.isRemote d.path)

/-- What a module is made of agrees: the hash and the file are those of the code, and each slot of
the code holds the start of the recorded hash of its dependency. -/
structure Coherent (store : ArtifactStore) (m : Module) : Prop extends Filed store m where
  linked : Linked m.code (m.dependencies.map (·.hash)) m.slots

structure Known (F : Prop) (store : ArtifactStore) (m : Module) : Prop extends Filed store m where
  linked : F → Linked m.code (m.dependencies.map (·.hash)) m.slots

def Faithful (F : Prop) (T : String → Prop) : Prop :=
  F → ∀ t t', T t → T t' → contentHash t = contentHash t' → t = t'

/-- The world holds modules and records with code among the given texts, all of them coherent if the
assumption holds. -/
structure Sound (F : Prop) (T : String → Prop) (w : World) : Prop where
  sorted : w.graph.modules.Sorted
  modules : ∀ id m, w.graph.modules.find? id = some m →
    Known F w.graph.store m ∧ T m.code ∧ ¬ModuleId.isRemote id
  remote : ∀ id m, w.graph.remote.find? id = some m →
    Known F w.graph.store m ∧ T m.code ∧ ModuleId.isRemote id
  records : ∀ place content, w.storePlace <+: place → EndsIn place recordEnding →
    w.disk.entry? place = some (.file content) →
      ∃ m, Known F w.graph.store m ∧ T m.code ∧ m.record.text.toUTF8 = content
  codes : ∀ place content, w.storePlace <+: place → EndsIn place codeEnding →
    w.disk.entry? place = some (.file content) → ∃ t, T t ∧ t.toUTF8 = content

section Modules

variable {store : ArtifactStore} {g : Graph} {m m' : Module} {F : Prop} {T : String → Prop} {w : World}

theorem known_sealed (hg : g.store = store) (hr : m.isRemote = ModuleId.isRemote m.id)
    (hp : ModuleId.Proper m.id) (hn : (m.dependencies.map (·.path)).Nodup)
    (hd : ∀ d ∈ m.dependencies, IsHash d.hash ∧ ModuleId.Proper d.path ∧
      (ModuleId.isRemote m.id → ModuleId.isRemote d.path))
    (hl : F → Linked m.code (m.dependencies.map (·.hash)) m.slots) : Known F store (g.sealed m) :=
  ⟨⟨rfl, by simp only [sealed, codePath, Module.stem, Module.nameHash, hg], hr, hp, hn, hd⟩, hl⟩

theorem isHash_knownHash (hs : Sound F T w) {previous : Option Module}
    (hp : ∀ m ∈ previous, Known F w.graph.store m) (id : String) :
    IsHash (w.graph.knownHash previous id) := by
  rw [knownHash]
  split
  · next m hm =>
    have hc : Known F w.graph.store m := by
      rcases Option.or_eq_some_iff.1 hm with hm | ⟨-, hm⟩
      · exact (hs.modules id m hm).1
      · exact (hs.remote id m hm).1
    exact .inr ⟨m.code, hc.hash⟩
  · split
    · next d hd =>
      have hm := List.mem_of_find?_eq_some hd
      cases previous with
      | none => cases hm
      | some m => exact ((hp m rfl).dependencies d hm).1
    · exact .inl rfl

/-- Compiled code is coherent: its slots have been filled with the hashes that are known. -/
theorem known_transpile (hs : Sound F T w) {id : String} (hid : ModuleId.Proper id) {s : Source}
    {o : Options} {previous : Option Module} (hp : ∀ m ∈ previous, Known F w.graph.store m)
    (h : w.graph.transpile w.disk id s o previous = .ok m) : Known F w.graph.store m := by
  obtain ⟨c, changed, code, hc, hf, rfl⟩ := transpile_eq_ok h
  obtain ⟨hn, hlead, hl⟩ := Compiled.compile_linked hc
  have hhash : ∀ x ∈ c.dependencies.map (w.graph.knownHash previous), IsHash x := by
    intro x hx
    obtain ⟨path, -, rfl⟩ := List.mem_map.1 hx
    exact isHash_knownHash hs hp path
  have hblank : ∀ i : Nat, (c.dependencies.map (w.graph.knownHash previous))[i]? = some "" →
      (c.dependencies.map fun _ ↦ "")[i]? = some "" := by
    intro i hi
    rw [List.getElem?_map] at hi ⊢
    obtain ⟨path, hpath, -⟩ := Option.map_eq_some_iff.1 hi
    rw [hpath]
    rfl
  obtain ⟨_, code', hf', -, hl'⟩ := hl.fill (by simp) hhash hblank
  rw [hf] at hf'
  obtain ⟨rfl, rfl⟩ := Prod.mk.inj (Option.some_inj.1 hf')
  refine known_sealed rfl rfl hid ?_ ?_ ?_
  · simpa only [List.map_map, Function.comp_def, List.map_id'] using hn
  · intro d hd
    obtain ⟨path, hpath, rfl⟩ := List.mem_map.1 hd
    obtain ⟨hproper, hremote⟩ := proper_of_leads (hlead path hpath)
    exact ⟨isHash_knownHash hs hp path, hproper, hremote⟩
  · intro _
    simpa only [List.map_map, Function.comp_def] using hl'

def Resettled (ds ds' : List Dependency) : Prop :=
  List.Forall₂ (fun d d' ↦ d'.path = d.path ∧ IsHash d'.hash ∧ (d'.hash = "" → d.hash = "")) ds ds'

theorem Resettled.paths {ds ds' : List Dependency} (h : Resettled ds ds') :
    ds'.map (·.path) = ds.map (·.path) := by
  induction h with
  | nil => rfl
  | cons hd _ ih => rw [List.map_cons, List.map_cons, hd.1, ih]

theorem Resettled.isHash {ds ds' : List Dependency} (h : Resettled ds ds') :
    ∀ d ∈ ds', IsHash d.hash := by
  induction h with
  | nil => exact fun _ h ↦ by cases h
  | cons hd _ ih =>
    intro d hm
    rcases List.mem_cons.1 hm with rfl | hm
    · exact hd.2.1
    · exact ih d hm

theorem Resettled.known {ds ds' : List Dependency} (h : Resettled ds ds') (i : Nat)
    (hi : (ds'.map (·.hash))[i]? = some "") : (ds.map (·.hash))[i]? = some "" := by
  induction h generalizing i with
  | nil => cases hi
  | @cons d d' ds ds' hd _ ih =>
    cases i with
    | zero =>
      rw [List.map_cons, List.getElem?_cons_zero, Option.some_inj] at hi ⊢
      exact hd.2.2 hi
    | succ i =>
      rw [List.map_cons, List.getElem?_cons_succ] at hi ⊢
      exact ih i hi

/-- Linking a coherent module anew keeps it coherent, whether or not its code changes. -/
theorem Known.relink (h : Known F g.store m) {ds : List Dependency}
    (hd : Resettled m.dependencies ds) (hr : g.relink m ds = .ok m') : Known F g.store m' := by
  obtain ⟨changed, code, hf, rfl⟩ := relink_eq_ok hr
  have hhash : ∀ x ∈ ds.map (·.hash), IsHash x := by
    intro x hx
    obtain ⟨d, hm, rfl⟩ := List.mem_map.1 hx
    exact hd.isHash d hm
  have hl : F → (changed = false → code = m.code) ∧ Linked code (ds.map (·.hash)) m.slots := by
    intro hF
    obtain ⟨_, _, hf', hfill⟩ := (h.linked hF).fill
      (by have := congrArg List.length hd.paths; simpa using this.symm) hhash hd.known
    rw [hf] at hf'
    obtain ⟨rfl, rfl⟩ := Prod.mk.inj (Option.some_inj.1 hf')
    exact hfill
  have hn : (ds.map (·.path)).Nodup := hd.paths ▸ h.distinct
  have hdeps : ∀ d ∈ ds, IsHash d.hash ∧ ModuleId.Proper d.path ∧
      (ModuleId.isRemote m.id → ModuleId.isRemote d.path) := by
    intro d hm
    refine ⟨hd.isHash d hm, ?_⟩
    obtain ⟨d', hm', he⟩ := List.mem_map.1 (hd.paths ▸ List.mem_map_of_mem (f := Dependency.path) hm)
    rw [← he]
    exact (h.dependencies d' hm').2
  cases changed with
  | true => exact known_sealed rfl h.isRemote h.proper hn hdeps fun hF ↦ (hl hF).2
  | false =>
    refine ⟨⟨h.hash, h.file, h.isRemote, h.proper, hn, hdeps⟩, fun hF ↦ ?_⟩
    rw [← (hl hF).1 rfl]
    exact (hl hF).2

end Modules

section Store

variable {w : World} {m : Module} {F : Prop} {T : String → Prop}

theorem recordPath_place (w : World) {id : String} (hid : ModuleId.Proper id) :
    w.storePlace <+: placeOf w.disk.workingDirectory (w.graph.store.recordPath (ModuleId.stem id)) ∧
    EndsIn (placeOf w.disk.workingDirectory (w.graph.store.recordPath (ModuleId.stem id)))
      recordEnding :=
  ⟨w.graph.store.root_prefix_recordPath _ (ModuleId.staysBelow_stem hid),
    w.graph.store.endsIn_recordPath _ _⟩

theorem codePath_place (w : World) {id : String} (hid : ModuleId.Proper id) {hash : Option String}
    (hh : ∀ x ∈ hash, ∃ text, x = contentHash text) :
    w.storePlace <+: placeOf w.disk.workingDirectory
      (w.graph.store.codePath (ModuleId.stem id) hash) ∧
    EndsIn (placeOf w.disk.workingDirectory (w.graph.store.codePath (ModuleId.stem id) hash))
      codeEnding :=
  ⟨w.graph.store.root_prefix_codePath _ (ModuleId.staysBelow_stem hid) hh,
    w.graph.store.endsIn_codePath _ _ _⟩

theorem readRecord?_eq_some {store : ArtifactStore} {disk : Disk} {stem : String} {found : ModuleMeta}
    (h : store.readRecord? disk stem = some found) : ∃ octets,
      disk.entry? (placeOf disk.workingDirectory (store.recordPath stem)) = some (.file octets) ∧
      ModuleMeta.read? (ArtifactStore.recordText octets) = some found := by
  obtain ⟨octets, hb, hread⟩ := Option.bind_eq_some_iff.1 h
  have hb : disk.readBytes (store.recordPath stem) = .ok octets := by
    cases hx : disk.readBytes (store.recordPath stem) with
    | error cause => rw [hx] at hb; cases hb
    | ok c => rw [hx] at hb; rw [Option.some_inj.1 hb]
  obtain ⟨place, hplace, hentry⟩ := Disk.readBytes_eq_ok hb
  obtain rfl := (Disk.locate_eq_ok hplace).symm
  exact ⟨octets, hentry, hread⟩

/-- What the store of a sound world gives back is what it has been given: the code that is read is the
one that was recorded, if no other one has its hash. -/
theorem Sound.load (h : Sound F T w) (hT : Faithful F T)
    {id : String} (hid : ModuleId.Proper id) (hl : w.graph.loadPersisted? w.disk id = some m) :
    Known F w.graph.store m ∧ T m.code := by
  obtain ⟨found, code, map, hr, hs, hc, hcode, rfl⟩ := loadPersisted?_eq_some hl
  obtain ⟨octets, hentry, hread⟩ := readRecord?_eq_some hr
  obtain ⟨hbelow, hend⟩ := recordPath_place w hid
  obtain ⟨m', hm', hT', rfl⟩ := h.records _ octets hbelow hend hentry
  rw [ArtifactStore.recordText, Text.Utf8.decode?_toUTF8, Option.getD_some] at hread
  obtain rfl := ModuleMeta.eq_of_read?_text hread
  have hid' : m'.id = id := hs
  have hnh : ∀ x ∈ m'.nameHash, ∃ text, x = contentHash text := by
    intro x hx
    rw [Module.nameHash] at hx
    split at hx
    · cases hx
    · obtain rfl := Option.some_inj.1 hx
      exact ⟨m'.code, hm'.hash⟩
  obtain ⟨hbelow', hend'⟩ := codePath_place w hid hnh
  obtain ⟨place', hplace', hentry'⟩ := Disk.readBytes_eq_ok (ArtifactStore.readText?_eq_some hc)
  obtain rfl := (Disk.locate_eq_ok hplace').symm
  obtain ⟨t, ht, he⟩ := h.codes _ code.toUTF8 hbelow' hend' hentry'
  obtain rfl := Text.Utf8.toUTF8_inj he
  refine ⟨⟨⟨hcode.symm, ?_, hm'.isRemote, hm'.proper, hm'.distinct, hm'.dependencies⟩, ?_⟩, ht⟩
  · simp only [Module.stem, Module.nameHash, Module.record, hid']
  · intro hF
    rw [hT hF t m'.code ht hT' (hcode.trans hm'.hash)]
    exact hm'.linked hF

theorem Sound.grows (h : Sound F T w) {disk : Disk} {new : Place → ByteArray → Prop}
    (hg : Grows new w.disk disk)
    (hr : ∀ p c, new p c → EndsIn p recordEnding →
      ∃ m, Known F w.graph.store m ∧ T m.code ∧ m.record.text.toUTF8 = c)
    (hc : ∀ p c, new p c → EndsIn p codeEnding → ∃ t, T t ∧ t.toUTF8 = c) :
    Sound F T { w with disk } := by
  have hplace : World.storePlace { w with disk } = w.storePlace := by
    rw [World.storePlace, World.storePlace, hg.workingDirectory]
  refine ⟨h.sorted, h.modules, h.remote, ?_, ?_⟩
  · intro place content hbelow hend hentry
    rw [hplace] at hbelow
    rcases hg.origin place content hentry with ho | hn
    · exact h.records place content hbelow hend ho
    · exact hr place content hn hend
  · intro place content hbelow hend hentry
    rw [hplace] at hbelow
    rcases hg.origin place content hentry with ho | hn
    · exact h.codes place content hbelow hend ho
    · exact hc place content hn hend

theorem Sound.grows_apart (h : Sound F T w) {new : Place → ByteArray → Prop} {disk : Disk}
    (hg : Grows new w.disk disk) (hnew : ∀ p c, new p c → ¬w.storePlace <+: p) :
    Sound F T { w with disk } := by
  have hplace : World.storePlace { w with disk } = w.storePlace := by
    rw [World.storePlace, World.storePlace, hg.workingDirectory]
  refine ⟨h.sorted, h.modules, h.remote, fun p c hp hend hc ↦ ?_, fun p c hp hend hc ↦ ?_⟩
  · rw [hplace] at hp
    exact h.records p c hp hend ((hg.origin p c hc).resolve_right fun hn ↦ hnew p c hn hp)
  · rw [hplace] at hp
    exact h.codes p c hp hend ((hg.origin p c hc).resolve_right fun hn ↦ hnew p c hn hp)

/-- Which files an ending tells apart: what code adds is no record, and only the code itself ends
as code does. -/
theorem putsCode_ending {store : ArtifactStore} {stem : String} {hash : Option String}
    {code : String} {sourceMap : Option String} {wd p : Place} {c : ByteArray}
    (h : PutsCode (store.codePath stem hash) code sourceMap wd p c) :
    ¬EndsIn p recordEnding ∧ (EndsIn p codeEnding → code.toUTF8 = c) := by
  rcases h with ⟨rfl, rfl⟩ | ⟨map, -, rfl, rfl⟩
  · exact ⟨ArtifactStore.not_endsIn_of_ne (store.endsIn_codePath wd stem hash) (by decide),
      fun _ ↦ rfl⟩
  · have hend := ArtifactStore.endsIn_sourceMapPath wd (store.codePath stem hash)
    exact ⟨ArtifactStore.not_endsIn_of_ne hend (by decide),
      fun he ↦ absurd he (ArtifactStore.not_endsIn_of_ne hend (by decide))⟩

theorem Sound.persist (h : Sound F T w) (hm : Known F w.graph.store m) (ht : T m.code) :
    Sound F T { w with disk := (w.persist m).disk } := by
  rw [World.persist, World.disk_persistBy]
  refine h.grows (ArtifactStore.writes_write _ _ _ _ _ _ w.disk) ?_ ?_
  · rintro p c (⟨-, rfl⟩ | hn) hend
    · exact ⟨m, hm, ht, rfl⟩
    · rw [hm.file] at hn
      exact absurd hend (putsCode_ending hn).1
  · rintro p c (⟨rfl, rfl⟩ | hn) hend
    · exact absurd hend (ArtifactStore.not_endsIn_of_ne
        (w.graph.store.endsIn_recordPath _ _) (by decide))
    · rw [hm.file] at hn
      exact ⟨m.code, ht, (putsCode_ending hn).2 hend⟩

theorem Sound.finish (h : Sound F T w) (hm : Known F w.graph.store m) (ht : T m.code)
    (changed : Bool) : Sound F T (w.finish m changed) := by
  obtain ⟨-, hs, -, hmod, hrem⟩ := w.modules_finish m changed
  have hdisk : Sound F T { w with disk := (w.finish m changed).disk } := by
    rw [World.disk_finish]
    split
    · exact h.persist hm ht
    · exact h
  have hplace : (w.finish m changed).storePlace =
      World.storePlace { w with disk := (w.finish m changed).disk } := by
    rw [World.storePlace, World.storePlace, hs]
  refine ⟨?_, ?_, ?_, ?_, ?_⟩
  · rw [hmod]
    split
    · exact h.sorted
    · exact h.sorted.insert
  · intro id m' hm'
    rw [hmod] at hm'
    rw [hs]
    split at hm'
    · exact h.modules id m' hm'
    · next hr =>
      rw [ModuleTable.find?_insert] at hm'
      split at hm'
      · next hid =>
        obtain rfl := Option.some_inj.1 hm'
        exact ⟨hm, ht, by rwa [← hid, ← hm.isRemote]⟩
      · exact h.modules id m' hm'
  · intro id m' hm'
    rw [hrem] at hm'
    rw [hs]
    split at hm'
    · next hr =>
      rw [ModuleTable.find?_insert] at hm'
      split at hm'
      · next hid =>
        obtain rfl := Option.some_inj.1 hm'
        exact ⟨hm, ht, by rwa [← hid, ← hm.isRemote]⟩
      · exact h.remote id m' hm'
    · exact h.remote id m' hm'
  · rw [hs, hplace]
    exact hdisk.records
  · rw [hplace]
    exact hdisk.codes

theorem Sound.sameModules (h : Sound F T w) {w' : World} (hw : World.SameModules w w') :
    Sound F T w' := by
  have hplace : w'.storePlace = w.storePlace := by
    rw [World.storePlace, World.storePlace, hw.store, hw.disk]
  refine ⟨by rw [hw.modules]; exact h.sorted, ?_, ?_, ?_, ?_⟩
  · rw [hw.modules, hw.store]
    exact h.modules
  · rw [hw.remote, hw.store]
    exact h.remote
  · rw [hplace, hw.store, hw.disk]
    exact h.records
  · rw [hplace, hw.disk]
    exact h.codes

theorem Sound.persistAlias (h : Sound F T w) {a : Alias} (ht : T a.target.code) :
    Sound F T (w.persistAlias a) := by
  rw [World.persistAlias]
  split
  · exact h
  · have hg := ArtifactStore.writes_writeCode
      (w.graph.store.codePath a.target.stem (some a.hashPrefix)) a.target.code a.target.sourceMap
      w.disk
    have hs := h.grows hg (fun p c hn hend ↦ absurd hend (putsCode_ending hn).1)
      fun p c hn hend ↦ ⟨a.target.code, ht, (putsCode_ending hn).2 hend⟩
    exact hs.sameModules (World.sameModules_persistBy w _)

end Store

section Aliases

variable {g : Graph} {a b : Alias}

theorem mem_insertNew {as : List Alias} (h : b ∈ a.insertNew as) : b = a ∨ b ∈ as := by
  induction as with
  | nil => exact .inl (List.mem_singleton.1 h)
  | cons c as ih =>
    rw [Alias.insertNew] at h
    split at h
    · exact .inr h
    · split at h
      · exact List.mem_cons.1 h
      · rcases List.mem_cons.1 h with rfl | h
        · exact .inr List.mem_cons_self
        · exact (ih h).imp_right (List.mem_cons_of_mem c)

def noteAlias (g : Graph) (found : List Alias) (d : Dependency) : List Alias :=
  (g.aliasOf? d).elim found (·.insertNew found)

theorem aliases_eq (g : Graph) :
    g.aliases = (g.modules.modules.flatMap (·.dependencies)).foldl g.noteAlias [] := by
  rw [aliases]
  congr 1
  funext found d
  rw [noteAlias]
  cases g.aliasOf? d <;> rfl

theorem exists_of_mem_aliases (h : a ∈ g.aliases) :
    ∃ m ∈ g.modules.modules, ∃ d ∈ m.dependencies, g.aliasOf? d = some a := by
  have hall : ∀ (ds : List Dependency) (found : List Alias),
      a ∈ ds.foldl g.noteAlias found → a ∈ found ∨ ∃ d ∈ ds, g.aliasOf? d = some a := by
    intro ds
    induction ds with
    | nil => exact fun _ ↦ .inl
    | cons d ds ih =>
      intro found hm
      rw [List.foldl_cons] at hm
      rcases ih _ hm with hm | ⟨d', hd, ha⟩
      · rw [noteAlias] at hm
        cases hd : g.aliasOf? d with
        | none =>
          rw [hd] at hm
          exact .inl hm
        | some b =>
          rw [hd] at hm
          rcases mem_insertNew hm with rfl | hm
          · exact .inr ⟨d, List.mem_cons_self, hd⟩
          · exact .inl hm
      · exact .inr ⟨d', List.mem_cons_of_mem d hd, ha⟩
  rw [aliases_eq] at h
  rcases hall _ _ h with hm | ⟨d, hd, ha⟩
  · cases hm
  · obtain ⟨m, hm, hd⟩ := List.mem_flatMap.1 hd
    exact ⟨m, hm, d, hd, ha⟩

theorem aliasOf?_eq_some {d : Dependency} (h : g.aliasOf? d = some a) :
    g.modules.find? d.path = some a.target ∧ d.hash ≠ "" ∧
      a.hashPrefix = Digest.hashPrefix d.hash ∧
      Digest.hashPrefix d.hash ≠ Digest.hashPrefix a.target.hash := by
  rw [aliasOf?] at h
  cases ht : g.modules.find? d.path with
  | none => rw [ht] at h; cases h
  | some target =>
    rw [ht] at h
    simp only [Option.bind_eq_bind, Option.bind_some, Option.ite_none_left_eq_some,
      Option.some_inj, Bool.or_eq_true, decide_eq_true_eq, not_or] at h
    obtain ⟨⟨hne, hp⟩, rfl⟩ := h
    exact ⟨rfl, hne, rfl, hp⟩

theorem Sound.persistAliases {F : Prop} {T : String → Prop} {w : World} (h : Sound F T w)
    (visited : List String) : Sound F T (w.persistAliases visited) := by
  have hall : ∀ (as : List Alias) (w : World), (∀ a ∈ as, T a.target.code) → Sound F T w →
      Sound F T (as.foldl World.persistAlias w) := by
    intro as
    induction as with
    | nil => exact fun _ _ h ↦ h
    | cons a as ih =>
      intro w ht h
      rw [List.foldl_cons]
      exact ih _ (fun b hb ↦ ht b (List.mem_cons_of_mem a hb))
        (h.persistAlias (ht a List.mem_cons_self))
  have htarget : ∀ a ∈ w.graph.aliases.filter fun a ↦ visited.contains a.target.id,
      T a.target.code := by
    intro a ha
    obtain ⟨m, -, d, -, hd⟩ := exists_of_mem_aliases (List.mem_of_mem_filter ha)
    exact (h.modules d.path a.target (aliasOf?_eq_some hd).1).2.1
  rw [World.persistAliases]
  exact hall _ w htarget h

end Aliases

section Runs

variable {F : Prop} {T : String → Prop}

/-- What is asked of a task: proper ids, and hashes of texts. -/
def Task.Proper : Task → Prop
  | .visit id _ => ModuleId.Proper id
  | .settle _ ds => ∀ d ∈ ds, IsHash d.hash ∧ ModuleId.Proper d.path

def Outcome.Sound (F : Prop) (store : ArtifactStore) : Task → Outcome → Prop
  | .visit .., .found m => Known F store m
  | .settle _ ds, .settled ds' _ => Resettled ds ds'
  | _, _ => True

theorem Sound.each {w : World} (h : Sound F T w) : w.Each (T ·.code) := by
  rintro id m (hm | hm)
  · exact (h.modules id m hm).2.1
  · exact (h.remote id m hm).2.1

theorem Sound.known {w : World} (h : Sound F T w) {id : String} {m : Module} (hm : w.Has id m) :
    Known F w.graph.store m := by
  rcases hm with hm | hm
  · exact (h.modules id m hm).1
  · exact (h.remote id m hm).1

theorem Sound.known_previous {w : World} (h : Sound F T w) (hT : Faithful F T) {id : String}
    (hid : ModuleId.Proper id) : ∀ m ∈ w.previous? id, Known F w.graph.store m := by
  intro m hm
  rcases Option.or_eq_some_iff.1 hm with hm | ⟨-, hm⟩
  · exact (h.modules id m hm).1
  · exact (h.load hT hid hm).1

theorem Sound.prepares {w : World} (h : Sound F T w)
    (hT : Faithful F T) {id : String}
    (hid : ModuleId.Proper id) {o : Options} {m : Module} {changed : Bool}
    (hp : Prepares w id o m changed) : Known F w.graph.store m := by
  have hprev := h.known_previous hT hid
  have hname := hp.id_eq
  cases hp with
  | compiled _ ht => exact known_transpile h hid hprev ht
  | @recorded m _ hm =>
    have hc := hprev m hm
    have hr : m.isRemote = ModuleId.isRemote id := hc.isRemote.trans (by rw [← hname])
    rw [← hr]
    exact hc

theorem resettled_settledAs {store : ArtifactStore} {m : Module} (hm : Known F store m) (r : Run)
    (importer : String) {d : Dependency} (hd : IsHash d.hash) {ds ds' : List Dependency}
    (h : Resettled ds ds') : Resettled (d :: ds) (r.settledAs importer d m :: ds') := by
  refine .cons ?_ h
  rw [Run.settledAs]
  split
  · exact ⟨rfl, .inr ⟨m.code, hm.hash⟩,
      fun he ↦ absurd (hm.hash.symm.trans he) (Digest.contentHash_ne_empty _)⟩
  · exact ⟨rfl, hd, id⟩

structure Run.Sound (F : Prop) (T : String → Prop) (r : Run) : Prop where
  world : Graph.Sound F T r.world
  stack : ∀ m ∈ r.stack, Known F r.world.graph.store m

namespace Run.Sound

variable {r r' inner : Run} {id : String} {o : Options} {m m' : Module} {changed : Bool}
  {world : World}

theorem inside (h : r.Sound F T) (hT : Faithful F T)
    (hid : ModuleId.Proper id) (hp : r.world.prepare id o = (.ok (m, changed), world)) :
    Known F r.world.graph.store m ∧ ((r.entered id world).inside m).Sound F T ∧
      (Task.settle m.id m.dependencies).Proper := by
  have hm := h.world.prepares hT hid (Prepares.of_eq hp)
  have hsame := (World.prepare_eq hp).1
  refine ⟨hm, ⟨h.world.sameModules hsame, ?_⟩, fun d hd ↦ ?_⟩
  · intro m' hm'
    change Known F world.graph.store m'
    rw [hsame.store]
    rcases List.mem_cons.1 hm' with rfl | hm'
    · exact hm
    · exact h.stack m' hm'
  · exact ⟨(hm.dependencies d hd).1, (hm.dependencies d hd).2.1⟩

theorem after (h : r.Sound F T) (hf : Frame r r') (hst : r'.stack = r.stack)
    (hw : Graph.Sound F T r'.world) : r'.Sound F T := by
  refine ⟨hw, ?_⟩
  rw [hst, hf.store]
  exact h.stack

end Run.Sound

/-- A part of a run keeps the world sound, if the texts of the modules at its end are among the
given ones. -/
theorem Yields.sound (hT : Faithful F T)
    {r r' : Run} {t : Task} {out : Outcome} (h : Yields r t out r') (hs : r.Sound F T)
    (ht : t.Proper) (htexts : r'.world.Each (T ·.code)) :
    Sound F T r'.world ∧ out.Sound F r.world.graph.store t := by
  induction h with
  | deep => exact ⟨hs.world, trivial⟩
  | @vendored r id o m hr => exact ⟨hs.world, (hs.world.remote id m hr).1⟩
  | @again r id o m hr hv hk =>
    refine ⟨hs.world, ?_⟩
    rcases Option.or_eq_some_iff.1 hk with hk | ⟨-, hk⟩
    · exact hs.stack m (List.mem_of_find?_eq_some hk)
    · exact (hs.world.modules id m hk).1
  | lost => exact ⟨hs.world, trivial⟩
  | unprepared _ _ hp => exact ⟨hs.world.sameModules (World.prepare_eq hp).1, trivial⟩
  | @leaf r id o m changed world hr hv hp _ =>
    obtain ⟨hm, hs', -⟩ := hs.inside hT ht hp
    have hw := (World.prepare_eq hp).1
    refine ⟨hs'.world.finish (hw.store ▸ hm) ?_ changed, hm⟩
    exact htexts m.id m (World.has_finish_self world m changed)
  | dropped hr hv hp hw hb ih =>
    obtain ⟨-, hs', ht'⟩ := hs.inside hT ht hp
    exact ⟨(ih hs' ht' htexts).1, trivial⟩
  | @kept r inner id o m changed world ds hr hv hp hw hb ih =>
    obtain ⟨hm, hs', ht'⟩ := hs.inside hT ht hp
    have hin := hb.frame.1.each_inside hp hs.world.each rfl htexts
    have hstore := hb.frame.1.store.trans (World.prepare_eq hp).1.store
    refine ⟨(ih hs' ht' hin).1.finish (hstore ▸ hm) ?_ changed, hm⟩
    exact htexts m.id m (World.has_finish_self inner.world m changed)
  | @broken r inner id o m changed world ds stop hr hv hp hw hb hl ih =>
    obtain ⟨-, hs', ht'⟩ := hs.inside hT ht hp
    exact ⟨(ih hs' ht' htexts).1, trivial⟩
  | @relinked r inner id o m m' changed world ds hr hv hp hw hb hl ih =>
    obtain ⟨hm, hs', ht'⟩ := hs.inside hT ht hp
    have hin := hb.frame.1.each_inside hp hs.world.each (relink_id hl).1 htexts
    have hstore := hb.frame.1.store.trans (World.prepare_eq hp).1.store
    obtain ⟨hsi, hd⟩ := ih hs' ht' hin
    have hm' : Known F inner.world.graph.store m' :=
      Known.relink (hstore ▸ hm) hd hl
    refine ⟨hsi.finish hm' ?_ true, hstore ▸ hm'⟩
    exact htexts m'.id m' (World.has_finish_self inner.world m' true)
  | done => exact ⟨hs.world, .nil⟩
  | @failed r r' importer d rest stop hf ih =>
    exact ⟨(ih hs (ht d List.mem_cons_self).2 htexts).1, trivial⟩
  | @cut r r' r'' importer d rest m stop hf ho ih ih' =>
    obtain ⟨hframe, hst⟩ := hf.frame
    have hmid := hframe.each ho.frame.1 hs.world.each htexts
    obtain ⟨hs', -⟩ := ih hs (ht d List.mem_cons_self).2 hmid
    exact ⟨(ih' (hs.after hframe (hst fun _ h ↦ Outcome.noConfusion h) hs')
      (fun d' hd ↦ ht d' (List.mem_cons_of_mem d hd)) htexts).1, trivial⟩
  | @next r r' r'' importer d rest settled m changed hf ho ih ih' =>
    obtain ⟨hframe, hst⟩ := hf.frame
    have hmid := hframe.each ho.frame.1 hs.world.each htexts
    obtain ⟨hs', hm⟩ := ih hs (ht d List.mem_cons_self).2 hmid
    obtain ⟨hs'', hd⟩ := ih' (hs.after hframe (hst fun _ h ↦ Outcome.noConfusion h) hs')
      (fun d' hd ↦ ht d' (List.mem_cons_of_mem d hd)) htexts
    rw [hframe.store] at hd
    exact ⟨hs'', resettled_settledAs hm r' importer (ht d List.mem_cons_self).1 hd⟩

end Runs

section Histories

variable {F : Prop} {T : String → Prop} {w : World} {id : String} {m : Module}

theorem Sound.compile (hT : Faithful F T)
    (h : Sound F T w) (text : String) (o : Options) (ht : (w.compile text o).2.Each (T ·.code)) :
    Sound F T (w.compile text o).2 := by
  rcases compile_cases w text o with ⟨cause, -, hc⟩ | ⟨id, r, he, ⟨stop, hy, hc⟩ | ⟨m, hy, hc⟩⟩
  · rw [hc]
    exact h
  · rw [hc] at ht ⊢
    exact (hy.sound hT ⟨h, fun _ hm ↦ by cases hm⟩ (proper_entryId he) ht).1
  · rw [hc] at ht ⊢
    have hsame := World.sameGraph_persistAliases r.world r.visited
    have ht' : r.world.Each (T ·.code) := fun id m hm ↦ ht id m (hsame.has.2 hm)
    exact (hy.sound hT ⟨h, fun _ hm ↦ by cases hm⟩ (proper_entryId he) ht').1.persistAliases _

theorem Sound.react (hT : Faithful F T)
    (h : Sound F T w) {e : Event} (he : w.Admits e) (ht : (w.react e).Each (T ·.code)) :
    Sound F T (w.react e) := by
  cases e with
  | compile text o => exact h.compile hT text o ht
  | remove id =>
    refine ⟨h.sorted.erase, ?_, h.remote, h.records, h.codes⟩
    intro id' m hm
    change (w.graph.modules.erase id).find? id' = some m at hm
    rw [ModuleTable.find?_erase] at hm
    split at hm
    · cases hm
    · exact h.modules id' m hm
  | edit disk network =>
    obtain ⟨hplace, hfiles⟩ := he
    change placeOf disk.workingDirectory w.graph.store.root = w.storePlace at hplace
    refine ⟨h.sorted, h.modules, h.remote, ?_, ?_⟩
    · intro place content hbelow hend hentry
      change placeOf disk.workingDirectory w.graph.store.root <+: place at hbelow
      rw [hplace] at hbelow
      exact h.records place content hbelow hend ((hfiles place hbelow).symm.trans hentry)
    · intro place content hbelow hend hentry
      change placeOf disk.workingDirectory w.graph.store.root <+: place at hbelow
      rw [hplace] at hbelow
      exact h.codes place content hbelow hend ((hfiles place hbelow).symm.trans hentry)
  | restart folder settings =>
    exact ⟨.nil, (fun _ _ hm ↦ by cases hm), (fun _ _ hm ↦ by cases hm), h.records, h.codes⟩

theorem sound_of_fresh (h : w.Fresh) : Sound F T w := by
  have hmark : ∀ {place content ending}, w.storePlace <+: place →
      EndsIn place ending → w.disk.entry? place = some (.file content) →
      ending.toList.getLast? = some 'N' ∨ ending = "" := by
    intro place content ending hbelow hend hentry
    by_cases he : ending = ""
    · exact .inr he
    · refine .inl ?_
      have hv : EndsIn place "VERSION" := by
        rw [h.files place content hbelow hentry]
        exact ⟨w.storePlace, "", by rw [String.empty_append]⟩
      rw [hend.ending_eq hv he (by decide)]
      rfl
  refine ⟨by rw [h.modules]; exact .nil, ?_, ?_, ?_, ?_⟩
  · intro id m hm
    rw [h.modules] at hm
    cases hm
  · intro id m hm
    rw [h.remote] at hm
    cases hm
  · intro place content hbelow hend hentry
    rcases hmark hbelow hend hentry with hm | hm
    all_goals exact absurd hm (by decide)
  · intro place content hbelow hend hentry
    rcases hmark hbelow hend hentry with hm | hm
    all_goals exact absurd hm (by decide)

def heldIn (ws : List World) (text : String) : Prop :=
  ∃ w ∈ ws, w.Holds text

theorem sound_of_history {allowed : World → Event → Prop} {ws : List World}
    (h : History allowed ws) (hT : Faithful F T)
    (ht : ∀ w ∈ ws, w.Each (T ·.code)) : ∀ w ∈ ws, Sound F T w := by
  induction h with
  | start hf =>
    intro w hw
    rw [List.mem_singleton.1 hw]
    exact sound_of_fresh hf
  | @step w ws e hb ha _ ih =>
    have hbefore := ih fun v hv ↦ ht v (List.mem_cons_of_mem _ hv)
    intro v hv
    rcases List.mem_cons.1 hv with rfl | hv
    · exact (hbefore w List.mem_cons_self).react hT ha (ht _ List.mem_cons_self)
    · exact hbefore v hv

theorem faithful_heldIn (ws : List World) : Faithful (NoCollision ws) (heldIn ws) := by
  rintro hc t t' ⟨w, hw, ht⟩ ⟨w', hw', ht'⟩ he
  exact hc w hw w' hw' t t' ht ht' he

theorem each_heldIn {ws : List World} (h : w ∈ ws) : w.Each (heldIn ws ·.code) :=
  fun id m hm ↦ ⟨w, h, id, m, hm, rfl⟩

theorem sound_heldIn {allowed : World → Event → Prop} {ws : List World} (h : History allowed ws) :
    ∀ w ∈ ws, Sound (NoCollision ws) (heldIn ws) w :=
  sound_of_history h (faithful_heldIn ws) fun _ ↦ each_heldIn

/-- In every state that a graph can be in, each module that it holds is coherent. -/
theorem coherent_of_history {ws : List World} (h : History (fun _ _ ↦ True) ws)
    (hc : NoCollision ws) (hw : w ∈ ws) (hm : w.Has id m) : Coherent w.graph.store m :=
  have hk := (sound_heldIn h w hw).known hm
  ⟨hk.toFiled, hk.linked hc⟩

section Visits

variable {r r' : Run} {u u' world : World} {text a b code code' filled : String} {o : Options}
  {m m' m'' : Module} {d : Dependency} {changed : Bool} {depth : Nat}

/-- A module without imports, or one that is compiled alone, is entered as it is prepared. -/
theorem Run.exists_visit_of_leaf (depth : Nat) (hr : r.world.graph.remote.find? id = none) (hv : id ∉ r.visited)
    (hp : r.world.prepare id o = (.ok (m, changed), world))
    (hd : (o.alone || m.dependencies.isEmpty) = true) :
    ∃ r', Run.visit (depth + 1) r id o = (.ok m, r') ∧ r'.world = world.finish m changed ∧
      r'.visited = id :: r.visited := by
  refine ⟨(r.entered id world).finished r.stack m changed, ?_, rfl, rfl⟩
  rw [Run.visit, hr]
  dsimp only
  rw [if_neg fun hc ↦ hv (List.contains_iff_mem.1 hc), hp]
  dsimp only
  rw [if_pos hd]
  rfl

theorem exists_relink {g : Graph} {ds : List Dependency} (h : ∀ d ∈ ds, Digest.IsHash d.hash)
    (m : Module) : ∃ m', g.relink m ds = .ok m' := by
  have hhash : ∀ hash ∈ ds.map (·.hash), Digest.IsHash hash := by
    intro hash hm
    obtain ⟨d, hd, rfl⟩ := List.mem_map.1 hm
    exact h d hd
  obtain ⟨⟨changed, code⟩, hr⟩ := HashSlot.exists_fill hhash m.code m.slots
  rw [relink]
  dsimp only
  rw [hr]
  cases changed <;> exact ⟨_, rfl⟩

theorem concluded_of_relink {inner : Run} {ds : List Dependency}
    (h : inner.world.graph.relink m ds = .ok m') :
    concluded r m changed (.ok (ds, true), inner) = (.ok m', inner.finished r.stack m' true) := by
  rw [concluded, h]

theorem Run.settle_of_blank {visit : Run → String → Except Stop Module × Run} {importer : String}
    (hd : d.hash = "") (hh : m.hash ≠ "") (hvisit : visit r d.path = (.ok m, r')) :
    Run.settle visit importer r [d] = (.ok ([⟨d.path, m.hash⟩], true), r') := by
  have hnew : r'.renews importer d m = true := by
    rw [Run.renews, Run.keepsName, hd, decide_eq_false (not_not.2 rfl), Bool.and_false,
      decide_eq_true hh]
    rfl
  rw [Run.settle_cons hvisit, Run.settledAs, hnew, if_pos rfl]
  rfl

/-- A module that imports one other, by no name yet, is entered with the hash of that one. -/
theorem Run.exists_visit_of_importer (hr : r.world.graph.remote.find? id = none) (hv : id ∉ r.visited)
    (hp : r.world.prepare id o = (.ok (m, changed), world)) (ha : o.alone = false)
    (hd : m.dependencies = [d]) (hblank : d.hash = "") (hh : m'.hash ≠ "")
    (hvisit : Run.visit depth ((r.entered id world).inside m) d.path .default = (.ok m', r'))
    (hrelink : r'.world.graph.relink m [⟨d.path, m'.hash⟩] = .ok m'') :
    ∃ r'', Run.visit (depth + 1) r id o = (.ok m'', r'') ∧ r''.world = r'.world.finish m'' true := by
  refine ⟨r'.finished r.stack m'' true, ?_, rfl⟩
  rw [Run.visit_of_prepared hr hv hp ha, hd, Run.settle_of_blank hblank hh hvisit]
  exact concluded_of_relink hrelink

structure Draft where
  id : String
  isRemote : Bool
  code : String
  dependencies : List Dependency
  slots : List HashSlot
deriving DecidableEq

def draft (m : Module) : Draft :=
  ⟨m.id, m.isRemote, m.code, m.dependencies, m.slots⟩

theorem exists_of_draft {p : Except Stop (Module × Bool) × World} {t : Draft × Bool}
    (h : p.1.toOption.map (fun q ↦ (draft q.1, q.2)) = some t) :
    ∃ m, p = (.ok (m, t.2), p.2) ∧ draft m = t.1 := by
  obtain ⟨stop | ⟨m, changed⟩, world⟩ := p
  · cases h
  · obtain rfl := Option.some_inj.1 h
    exact ⟨m, rfl, rfl⟩

theorem relink_eq_of_fill {g : Graph} {code : String} {ds : List Dependency}
    (h : HashSlot.fill m.code m.slots (ds.map (·.hash)) = some (true, code)) :
    g.relink m ds = .ok (g.sealed { m with dependencies := ds, code }) := by
  rw [relink]
  dsimp only
  rw [h]

theorem hash_of_prepare (h : w.prepare id o = (.ok (m, true), world)) : m.hash = contentHash m.code := by
  have hp := (World.prepare_eq h).2 m true rfl
  cases hp with
  | compiled _ ht =>
    obtain ⟨_, _, _, -, -, rfl⟩ := transpile_eq_ok ht
    rfl

theorem World.modules_finish_local (world : World) (changed : Bool) (hm : m.isRemote = false) :
    (world.finish m changed).graph.modules = world.graph.modules.insert m ∧
      (world.finish m changed).graph.remote = world.graph.remote := by
  obtain ⟨-, -, -, hmodules, hremote⟩ := World.modules_finish world m changed
  rw [hm, if_neg Bool.false_ne_true] at hmodules hremote
  exact ⟨hmodules, hremote⟩

theorem Run.visit_of_stack (hr : r.world.graph.remote.find? id = none) (hv : id ∈ r.visited)
    (hm : r.stack.find? (·.id = id) = some m) :
    Run.visit (depth + 1) r id .default = (.ok m, r.noted id) := by
  rw [Run.visit, hr]
  dsimp only
  rw [if_pos (List.contains_iff_mem.2 hv), Run.revisit]
  dsimp only
  rw [hm]
  rfl

theorem Run.world_finished (r : Run) (stack : List Module) (m : Module) (changed : Bool) :
    (r.finished stack m changed).world = r.world.finish m changed :=
  rfl

theorem Run.exists_visit_of_cycle (depth : Nat)
    (hr : r.world.graph.remote = .empty) (hb : b ∉ r.visited) (ha : d.path ∈ r.visited)
    (hp : r.world.prepare b .default = (.ok (m', true), u')) (hdeps : m'.dependencies = [d])
    (hblank : d.hash = "") (hm : (m' :: r.stack).find? (·.id = d.path) = some m)
    (hh : m.hash = Digest.contentHash m.code) :
    ∃ m'' r', Run.visit (depth + 2) r b .default = (.ok m'', r') ∧
      r'.world = u'.finish m'' true ∧ r'.visited = b :: r.visited ∧ m''.id = m'.id ∧
        m''.isRemote = m'.isRemote ∧ m''.dependencies = [⟨d.path, m.hash⟩] ∧
        m''.hash = contentHash m''.code := by
  have hnone : ∀ id, r.world.graph.remote.find? id = none := fun id ↦ by
    rw [hr]
    rfl
  have hsame := (World.prepare_eq hp).1
  obtain ⟨m'', hrelink⟩ : ∃ m'', u'.graph.relink m' [⟨d.path, m.hash⟩] = .ok m'' :=
    exists_relink (fun x hx ↦ by
      rw [List.mem_singleton.1 hx, hh]
      exact .inr ⟨_, rfl⟩) m'
  obtain ⟨hid, hremote⟩ := relink_id hrelink
  have hagain : Run.visit (depth + 1) ((r.entered b u').inside m') d.path .default =
      (.ok m, ((r.entered b u').inside m').noted d.path) :=
    Run.visit_of_stack ((congrArg (·.find? d.path) hsame.remote).trans (hnone _))
      (List.mem_cons_of_mem b ha) hm
  have hhash : m''.hash = contentHash m''.code := by
    obtain ⟨_ | _, code, -, rfl⟩ := relink_eq_ok hrelink
    · show m'.hash = contentHash m'.code
      exact hash_of_prepare hp
    · rfl
  refine ⟨m'', (((r.entered b u').inside m').noted d.path).finished r.stack m'' true, ?_,
    Run.world_finished _ _ _ _, rfl, hid, hremote, relink_dependencies hrelink, hhash⟩
  rw [Run.visit_of_prepared (hnone b) hb hp rfl, hdeps,
    Run.settle_of_blank hblank (hh ▸ Digest.contentHash_ne_empty _) hagain]
  exact concluded_of_relink hrelink

theorem insert_insert {t : ModuleTable} (ht : ∀ x ∈ t.modules, x.id = m''.id) (hs : t.Sorted)
    (hlt : m''.id < m'.id) : (t.insert m').insert m'' = ⟨[m'', m']⟩ := by
  have hne : m''.id ≠ m'.id := fun he ↦ String.lt_irrefl m'.id (he ▸ hlt)
  have hgt : ¬m'.id < m''.id := fun h ↦ String.lt_irrefl m'.id (String.lt_trans h hlt)
  obtain ⟨_ | ⟨x, _ | ⟨y, ms⟩⟩⟩ := t
  · simp only [ModuleTable.insert, ModuleTable.insertSorted, if_neg hne, if_pos hlt]
  · have hx := ht x List.mem_cons_self
    simp only [ModuleTable.insert, ModuleTable.insertSorted, hx, if_neg hne.symm, if_neg hgt, if_pos]
  · have hxy := (List.pairwise_cons.1 hs).1 y List.mem_cons_self
    rw [ht x List.mem_cons_self, ht y (List.mem_cons_of_mem _ List.mem_cons_self)] at hxy
    exact absurd hxy (String.lt_irrefl _)

theorem World.exists_depthBound (w : World) : ∃ depth, w.depthBound = depth + 4 :=
  ⟨2 * w.knownIds.length, rfl⟩

def contents (g : Graph) : List (String × String × List Dependency) :=
  (g.modules.modules ++ g.remote.modules).map fun m ↦ (m.id, m.code, m.dependencies)

/-- What a module and the one that it imports are compiled to, if nothing else is registered. -/
theorem exists_compile_of_drafts {slots : List HashSlot} (hmodules : ∀ x ∈ w.graph.modules.modules, x.id = a)
    (hsorted : w.graph.modules.Sorted) (hremote : w.graph.remote = .empty)
    (hentry : w.entryId text = .ok a) (hlt : a < b)
    (hprepare : w.prepare a .default = (.ok (m, changed), u))
    (hprepare' : u.prepare b .default = (.ok (m', true), u'))
    (hdraft : draft m = ⟨a, false, code, [⟨b, ""⟩], slots⟩) (hdraft' : draft m' = ⟨b, false, code', [], []⟩)
    (hfill : HashSlot.fill code slots [contentHash code'] = some (true, filled)) :
    ∃ m₀ w', w.compile text .default = (.ok m₀, w') ∧ m₀.id = a ∧
      contents w'.graph = [(a, filled, [⟨b, contentHash code'⟩]), (b, code', [])] ∧
        w'.graph.aliases = [] ∧
        ∀ x n, w'.Has x n → n.sourceMap = m.sourceMap ∨ n.sourceMap = m'.sourceMap := by
  have hne : a ≠ b := fun he ↦ String.lt_irrefl b (he ▸ hlt)
  obtain ⟨rfl, hlocal, hcode, hdeps, hslots⟩ := Draft.mk.inj hdraft
  obtain ⟨rfl, hlocal', hcode', hdeps', hslots'⟩ := Draft.mk.inj hdraft'
  have hsame := (World.prepare_eq hprepare).1
  have hsame' := (World.prepare_eq hprepare').1
  have hhash : m'.hash = contentHash code' := by
    rw [hash_of_prepare hprepare', hcode']
  have hfinish := World.modules_finish_local u' true hlocal'
  obtain ⟨depth, hdepth⟩ := w.exists_depthBound
  have hnone : ∀ id, w.graph.remote.find? id = none := fun id ↦ by
    rw [hremote]
    rfl
  obtain ⟨r', hvisit', hworld', -⟩ : ∃ r', Run.visit (depth + 3)
      (((Run.start w).entered m.id u).inside m) m'.id .default = (.ok m', r') ∧
        r'.world = u'.finish m' true ∧ r'.visited = [m'.id, m.id] := by
    have hr : u.graph.remote.find? m'.id = none := by
      rw [hsame.remote, hnone]
    exact Run.exists_visit_of_leaf _ hr (fun hm ↦ hne (List.mem_singleton.1 hm).symm) hprepare'
      (by rw [hdeps']; rfl)
  have hrelink : r'.world.graph.relink m [⟨m'.id, m'.hash⟩] =
      .ok (r'.world.graph.sealed { m with
        dependencies := [⟨m'.id, m'.hash⟩], code := filled }) := by
    refine relink_eq_of_fill ?_
    rw [hcode, hslots, hhash]
    exact hfill
  generalize hm'' : r'.world.graph.sealed _ = m'' at hrelink
  obtain ⟨hid, hremote'', hdeps'', hcode'', hmap⟩ : m''.id = m.id ∧ m''.isRemote = false ∧
      m''.dependencies = [⟨m'.id, m'.hash⟩] ∧ m''.code = filled ∧ m''.sourceMap = m.sourceMap := by
    rw [← hm'']
    exact ⟨rfl, hlocal, rfl, rfl, rfl⟩
  obtain ⟨r, hvisit, hworld⟩ : ∃ r, Run.visit (depth + 4) (Run.start w) m.id .default =
      (.ok m'', r) ∧ r.world = r'.world.finish m'' true :=
    Run.exists_visit_of_importer (hnone _) List.not_mem_nil hprepare rfl hdeps rfl
      (hhash ▸ Digest.contentHash_ne_empty _) hvisit' hrelink
  have hmodules : r.world.graph.modules = ⟨[m'', m']⟩ ∧ r.world.graph.remote = .empty := by
    obtain ⟨hinsert, hsame''⟩ := World.modules_finish_local r'.world true hremote''
    rw [← hworld, hworld', hfinish.1, hsame'.modules, hsame.modules] at hinsert
    rw [← hworld, hworld', hfinish.2, hsame'.remote, hsame.remote, hremote] at hsame''
    refine ⟨hinsert.trans ?_, hsame''⟩
    exact insert_insert (hid ▸ hmodules) hsorted (hid ▸ hlt)
  have haliases : r.world.graph.aliases = [] := by
    refine List.eq_nil_iff_forall_not_mem.2 fun a ha ↦ ?_
    obtain ⟨x, hx, d, hd, he⟩ := exists_of_mem_aliases ha
    obtain ⟨htarget, -, -, hprefix⟩ := aliasOf?_eq_some he
    rw [hmodules.1] at hx htarget
    rcases List.mem_cons.1 hx with rfl | hx
    · rw [hdeps''] at hd
      obtain rfl := List.mem_singleton.1 hd
      have hfind : (⟨[x, m']⟩ : ModuleTable).find? m'.id = some m' := by
        rw [ModuleTable.find?, List.find?_cons_of_neg (by simpa [hid] using hne),
          List.find?_cons_of_pos (by simp)]
      obtain rfl := Option.some_inj.1 (hfind.symm.trans htarget)
      exact hprefix rfl
    · rw [List.mem_singleton.1 hx, hdeps'] at hd
      cases hd
  refine ⟨m'', r.world, ?_, hid, ?_, haliases, fun x n hn ↦ ?_⟩
  · rw [World.compile, hentry]
    dsimp only
    rw [hdepth, hvisit]
    dsimp only
    rw [World.persistAliases, haliases]
    rfl
  · rw [contents, hmodules.1, hmodules.2]
    change [(m''.id, m''.code, m''.dependencies), (m'.id, m'.code, m'.dependencies)] = _
    rw [hid, hcode'', hdeps'', hcode', hdeps', hhash]
  · rw [World.Has, Graph.module?, Graph.remoteModule?, hmodules.1, hmodules.2] at hn
    have hmem : n ∈ [m'', m'] := ModuleTable.mem_of_find? (hn.resolve_right fun h ↦ by cases h)
    rcases List.mem_cons.1 hmem with rfl | hmem
    · exact .inl hmap
    · exact .inr (by rw [List.mem_singleton.1 hmem])

end Visits

/-- A module that imports another one, beside an empty store. -/
def pairWorld : World :=
  ⟨.new ⟨"s", 1000⟩ ⟨"c"⟩ ⟨⟨[]⟩, true, false⟩,
    ⟨[], [(["s"], .directory), (["s", "a.js"], .file "import\"./b.js\"".toUTF8),
      (["s", "b.js"], .file "".toUTF8), (["c"], .directory)]⟩,
    ⟨[], .error .hostNotFound, []⟩⟩

theorem fresh_pairWorld : pairWorld.Fresh :=
  World.fresh_of_entries rfl rfl (by decide)

def pair : List (String × String × List Dependency) :=
  [("/a.js", "import \"./b.da39a3ee5.js\";\n",
    [⟨"/b.js", "da39a3ee5e6b4b0d3255bfef95601890afd80709"⟩]), ("/b.js", "", [])]

def importing (hash : String) : String :=
  "import \"./b." ++ hash ++ ".js\";\n"

set_option maxRecDepth 8000 in
theorem prepare_pairWorld : (pairWorld.prepare "/a.js" .default).1.toOption.map
    (fun p ↦ (draft p.1, p.2)) =
      some (⟨"/a.js", false, importing "000000000", [⟨"/b.js", ""⟩], [⟨0, 12⟩]⟩, true) := by
  decide +kernel

theorem prepare_imported_pairWorld :
    ((pairWorld.prepare "/a.js" .default).2.prepare "/b.js" .default).1.toOption.map
      (fun p ↦ (draft p.1, p.2)) = some (⟨"/b.js", false, "", [], []⟩, true) := by
  decide +kernel

theorem contentHash_empty : contentHash "" = "da39a3ee5e6b4b0d3255bfef95601890afd80709" := by
  decide +kernel

theorem fill_importing : HashSlot.fill (importing "000000000") [⟨0, 12⟩] [contentHash ""] =
    some (true, importing "da39a3ee5") := by
  rw [contentHash_empty]
  decide +kernel

theorem compile_pairWorld : ∃ m w', pairWorld.compile "a.js" .default = (.ok m, w') ∧ m.id = "/a.js" ∧
    contents w'.graph = pair ∧ w'.graph.aliases = [] := by
  have hentry : pairWorld.entryId "a.js" = .ok "/a.js" := by decide
  obtain ⟨m, hprepare, hdraft⟩ := exists_of_draft prepare_pairWorld
  obtain ⟨m', hprepare', hdraft'⟩ := exists_of_draft prepare_imported_pairWorld
  have hcompile := exists_compile_of_drafts (w := pairWorld) (fun _ h ↦ by cases h) .nil rfl hentry
    (by decide) hprepare hprepare' hdraft hdraft' fill_importing
  rw [contentHash_empty] at hcompile
  exact hcompile.imp fun _ h ↦ h.imp fun _ h ↦ ⟨h.1, h.2.1, h.2.2.1, h.2.2.2.1⟩

theorem exists_compile_pairWorld : ∃ m w', pairWorld.compile "a.js" .default = (.ok m, w') ∧
    m.id = "/a.js" ∧ contents w'.graph = pair :=
  compile_pairWorld.imp fun _ h ↦ h.imp fun _ h ↦ ⟨h.1, h.2.1, h.2.2.1⟩

theorem mem_contents (h : w.Has id m) : (id, m.code, m.dependencies) ∈ contents w.graph := by
  rw [← h.id_eq]
  refine List.mem_map_of_mem (f := fun m : Module ↦ (m.id, m.code, m.dependencies)) ?_
  rcases h with h | h
  · exact List.mem_append_left _ (ModuleTable.mem_of_find? h)
  · exact List.mem_append_right _ (ModuleTable.mem_of_find? h)

theorem exists_of_mem_contents (h : id ∈ (contents w.graph).map Prod.fst) : ∃ m, w.Has id m := by
  rw [contents, List.map_map] at h
  obtain ⟨m, hm, rfl⟩ := List.mem_map.1 h
  rcases List.mem_append.1 hm with hm | hm
  · obtain ⟨x, hx⟩ := Option.isSome_iff_exists.1
      (List.find?_isSome (p := (·.id = m.id)).2 ⟨m, hm, decide_eq_true rfl⟩)
    exact ⟨x, .inl hx⟩
  · obtain ⟨x, hx⟩ := Option.isSome_iff_exists.1
      (List.find?_isSome (p := (·.id = m.id)).2 ⟨m, hm, decide_eq_true rfl⟩)
    exact ⟨x, .inr hx⟩

theorem noCollision_of_contents {ws : List World} {texts : List String}
    (ht : ∀ t ∈ texts, ∀ t' ∈ texts, contentHash t = contentHash t' → t = t')
    (h : ∀ v ∈ ws, ∀ entry ∈ contents v.graph, entry.2.1 ∈ texts) : NoCollision ws := by
  have hall : ∀ v ∈ ws, ∀ t, v.Holds t → t ∈ texts := by
    rintro v hv t ⟨id, m, hm, rfl⟩
    exact h v hv _ (mem_contents hm)
  intro v hv v' hv' t t' ht₁ ht₂ he
  exact ht t (hall v hv t ht₁) t' (hall v' hv' t' ht₂) he

theorem contentHash_importer :
    contentHash "import \"./b.da39a3ee5.js\";\n" = "5942f220643e6ea0a47ffd3b1e1eb1801addd9a8" := by
  decide +kernel

theorem noCollision_of_pair {ws : List World}
    (h : ∀ v ∈ ws, contents v.graph = pair ∨ contents v.graph = []) : NoCollision ws := by
  have htexts : ∀ t ∈ ["import \"./b.da39a3ee5.js\";\n", ""],
      ∀ t' ∈ ["import \"./b.da39a3ee5.js\";\n", ""], contentHash t = contentHash t' → t = t' := by
    simp only [List.forall_mem_cons, contentHash_empty, contentHash_importer]
    decide
  refine noCollision_of_contents htexts fun v hv ↦ ?_
  rcases h v hv with h | h
  · rw [h]
    decide
  · rw [h]
    exact fun _ he ↦ (List.not_mem_nil he).elim

theorem noCollision_pairWorld (h : contents w.graph = pair) : NoCollision [w, pairWorld] := by
  refine noCollision_of_pair fun v hv ↦ ?_
  rcases List.mem_cons.1 hv with rfl | hv
  · exact .inl h
  · rw [List.mem_singleton.1 hv]
    exact .inr rfl

theorem coherent_compile_pairWorld : ∃ m w', pairWorld.react (.compile "a.js" .default) = w' ∧
    NoCollision [w', pairWorld] ∧ w'.Has "/a.js" m ∧ Coherent w'.graph.store m := by
  obtain ⟨_, w', hok, -, hpair⟩ := exists_compile_pairWorld
  have hc := noCollision_pairWorld hpair
  have hh : History (fun _ _ ↦ True) [pairWorld.react (.compile "a.js" .default), pairWorld] :=
    .step (.start fresh_pairWorld) (pairWorld.admits_compile "a.js" .default) trivial
  rw [World.react_compile, hok] at hh
  have ha : "/a.js" ∈ (contents w'.graph).map Prod.fst := by
    rw [hpair]
    exact List.mem_cons_self
  obtain ⟨m, hm⟩ := exists_of_mem_contents ha
  refine ⟨m, w', ?_, hc, hm, coherent_of_history hh hc List.mem_cons_self hm⟩
  rw [World.react_compile, hok]

end Histories

end SiteCompiler.Graph
