import SiteCompiler.Proofs.Source

namespace SiteCompiler

namespace ModuleTable

variable {t : ModuleTable} {m : Module} {id id' : String}

theorem id_of_find? (h : t.find? id = some m) : m.id = id := by
  have hm := List.find?_some h
  exact of_decide_eq_true hm

theorem mem_of_find? (h : t.find? id = some m) : m ∈ t.modules :=
  List.mem_of_find?_eq_some h

theorem find?_insertSorted (m : Module) (ms : List Module) (id : String) :
    (insertSorted m ms).find? (·.id = id) = if m.id = id then some m else ms.find? (·.id = id) := by
  induction ms with
  | nil =>
    rw [insertSorted, List.find?_cons, List.find?_nil]
    by_cases h : m.id = id <;> simp [h]
  | cons other rest ih =>
    rw [insertSorted]
    by_cases hid : m.id = id
    · rw [if_pos hid] at ih ⊢
      split
      · rw [List.find?_cons_of_pos (by simpa using hid)]
      · next hne =>
        split
        · rw [List.find?_cons_of_pos (by simpa using hid)]
        · rw [List.find?_cons_of_neg (by simpa using fun h ↦ hne (hid.trans h.symm)), ih]
    · rw [if_neg hid] at ih ⊢
      split
      · next he =>
        rw [List.find?_cons_of_neg (by simpa using hid),
          List.find?_cons_of_neg (by simpa using fun h ↦ hid (he.trans h))]
      · split
        · rw [List.find?_cons_of_neg (by simpa using hid)]
        · rw [List.find?_cons, List.find?_cons, ih]

theorem find?_insert : (t.insert m).find? id = if m.id = id then some m else t.find? id :=
  find?_insertSorted m t.modules id

theorem find?_insert_self : (t.insert m).find? m.id = some m := by
  rw [find?_insert, if_pos rfl]

theorem find?_insert_of_ne (h : m.id ≠ id) : (t.insert m).find? id = t.find? id := by
  rw [find?_insert, if_neg h]

theorem find?_erase : (t.erase id').find? id = if id = id' then none else t.find? id := by
  rw [find?, erase, List.find?_filter]
  split
  · next h =>
    subst h
    rw [List.find?_eq_none]
    intro m _ hm
    simp only [decide_not, Bool.not_eq_true', Bool.decide_and, Bool.and_eq_true,
      decide_eq_false_iff_not, decide_eq_true_eq] at hm
    exact hm.1 hm.2
  · next h =>
    rw [find?]
    congr 1
    funext m
    by_cases hm : m.id = id
    · have hne : m.id ≠ id' := fun he ↦ h (hm.symm.trans he)
      simp [hm, h]
    · simp [hm]

def Sorted (t : ModuleTable) : Prop :=
  t.modules.Pairwise fun m m' ↦ m.id < m'.id

theorem mem_insertSorted {ms : List Module} {x : Module} (h : x ∈ insertSorted m ms) :
    x = m ∨ x ∈ ms := by
  induction ms with
  | nil => exact .inl (List.mem_singleton.1 h)
  | cons other ms ih =>
    rw [insertSorted] at h
    split at h
    · exact (List.mem_cons.1 h).imp_right (List.mem_cons_of_mem other)
    · split at h
      · exact List.mem_cons.1 h
      · rcases List.mem_cons.1 h with rfl | h
        · exact .inr List.mem_cons_self
        · exact (ih h).imp_right (List.mem_cons_of_mem other)

theorem pairwise_insertSorted {ms : List Module} (h : ms.Pairwise fun m m' ↦ m.id < m'.id) :
    (insertSorted m ms).Pairwise fun m m' ↦ m.id < m'.id := by
  induction ms with
  | nil => exact List.pairwise_singleton _ m
  | cons other ms ih =>
    obtain ⟨hother, hms⟩ := List.pairwise_cons.1 h
    rw [insertSorted]
    split
    · next he => exact List.pairwise_cons.2 ⟨fun x hx ↦ he ▸ hother x hx, hms⟩
    · next hne =>
      split
      · next hlt =>
        refine List.pairwise_cons.2 ⟨fun x hx ↦ ?_, h⟩
        rcases List.mem_cons.1 hx with rfl | hx
        · exact hlt
        · exact String.lt_trans hlt (hother x hx)
      · next hge =>
        refine List.pairwise_cons.2 ⟨fun x hx ↦ ?_, ih hms⟩
        rcases mem_insertSorted hx with rfl | hx
        · refine String.not_le.1 fun hle ↦ hne ?_
          exact String.le_antisymm hle (String.not_lt.1 hge)
        · exact hother x hx

theorem Sorted.insert (h : t.Sorted) : (t.insert m).Sorted :=
  pairwise_insertSorted h

theorem Sorted.erase (h : t.Sorted) : (t.erase id).Sorted :=
  List.Pairwise.filter _ h

theorem Sorted.find?_of_mem (h : t.Sorted) (hm : m ∈ t.modules) : t.find? m.id = some m := by
  obtain ⟨modules⟩ := t
  rw [find?]
  induction modules with
  | nil => cases hm
  | cons other ms ih =>
    obtain ⟨hother, hms⟩ := List.pairwise_cons.1 h
    rcases List.mem_cons.1 hm with rfl | hm
    · exact List.find?_cons_of_pos (p := fun x : Module ↦ decide (x.id = m.id)) (decide_eq_true rfl)
    · have hne : other.id ≠ m.id := fun he ↦ String.lt_irrefl _ (he ▸ hother m hm)
      rw [List.find?_cons_of_neg (by simpa using hne)]
      exact ih hms hm

end ModuleTable

namespace Graph

namespace World

/-- A module, local or remote, is registered under an id. -/
def Has (w : World) (id : String) (m : Module) : Prop :=
  w.graph.module? id = some m ∨ w.graph.remoteModule? id = some m

theorem Has.id_eq {w : World} {id : String} {m : Module} (h : w.Has id m) : m.id = id :=
  h.elim ModuleTable.id_of_find? ModuleTable.id_of_find?

/-- The module registered under the first id has the second one among its recorded dependencies. -/
def Imports (w : World) (a b : String) : Prop :=
  ∃ m, w.Has a m ∧ ∃ d ∈ m.dependencies, d.path = b

/-- From the first id recorded dependencies lead to the second one. -/
def Reaches (w : World) : String → String → Prop :=
  Relation.ReflTransGen w.Imports

def OnCycle (w : World) (id : String) : Prop :=
  Relation.TransGen w.Imports id id

def Each (w : World) (P : Module → Prop) : Prop :=
  ∀ id m, w.Has id m → P m

structure SameModules (w w' : World) : Prop where
  folder : w'.graph.folder = w.graph.folder
  store : w'.graph.store = w.graph.store
  settings : w'.graph.settings = w.graph.settings
  modules : w'.graph.modules = w.graph.modules
  remote : w'.graph.remote = w.graph.remote
  disk : w'.disk = w.disk

theorem SameModules.refl (w : World) : SameModules w w := ⟨rfl, rfl, rfl, rfl, rfl, rfl⟩

theorem SameModules.trans {w w' w'' : World} (h : SameModules w w') (h' : SameModules w' w'') :
    SameModules w w'' :=
  ⟨h'.folder.trans h.folder, h'.store.trans h.store, h'.settings.trans h.settings,
    h'.modules.trans h.modules, h'.remote.trans h.remote, h'.disk.trans h.disk⟩

theorem SameModules.has {w w' : World} (h : SameModules w w') {id : String} {m : Module} :
    w'.Has id m ↔ w.Has id m := by
  rw [Has, Has, module?, module?, remoteModule?, remoteModule?, h.modules, h.remote]

theorem sameModules_count (w : World) (f : Stats → Stats) : SameModules w (w.count f) :=
  ⟨rfl, rfl, rfl, rfl, rfl, rfl⟩

def previous? (w : World) (id : String) : Option Module :=
  (w.graph.modules.find? id).or (w.graph.loadPersisted? w.disk id)

theorem sameModules_obtain (w : World) (id : String) (o : Options) (previous : Option Module) :
    SameModules w (w.obtain id o previous).2 := by
  rw [obtain]
  split
  · exact .refl w
  · split
    · exact .refl w
    · split
      · exact ⟨rfl, rfl, rfl, rfl, rfl, rfl⟩
      · exact ⟨rfl, rfl, rfl, rfl, rfl, rfl⟩

end World

inductive Prepares (w : World) (id : String) (o : Options) : Module → Bool → Prop
  | compiled {s : Source} {m : Module}
      (obtained : (w.obtain id o (w.previous? id)).1 = .ok (some s))
      (transpiled : w.graph.transpile w.disk id s o (w.previous? id) = .ok m) :
      Prepares w id o m true
  | recorded {m : Module}
      (obtained : (w.obtain id o (w.previous? id)).1 = .ok none)
      (previous : w.previous? id = some m) :
      Prepares w id o { m with isRemote := ModuleId.isRemote id } false

namespace World

variable {w w' : World} {id : String} {o : Options}

theorem SameModules.transpile (h : SameModules w w') (s : Source) (previous : Option Module) :
    w'.graph.transpile w'.disk id s o previous = w.graph.transpile w.disk id s o previous := by
  obtain ⟨g, d, n⟩ := w
  obtain ⟨g', d', n'⟩ := w'
  obtain ⟨f, s, t, a, b, x⟩ := g
  obtain ⟨f', s', t', a', b', x'⟩ := g'
  obtain ⟨rfl, rfl, rfl, rfl, rfl, rfl⟩ := h
  rfl

theorem prepare_eq {r : Except Stop (Module × Bool)} (h : w.prepare id o = (r, w')) :
    SameModules w w' ∧ ∀ m changed, r = .ok (m, changed) → Prepares w id o m changed := by
  have hs := w.sameModules_obtain id o (w.previous? id)
  rw [prepare] at h
  rw [show (w.graph.modules.find? id).or (w.graph.loadPersisted? w.disk id) = w.previous? id
    from rfl] at h
  rcases ho : w.obtain id o (w.previous? id) with ⟨cause | (_ | s), w₁⟩
  · rw [ho] at h hs
    obtain ⟨rfl, rfl⟩ := Prod.mk.inj h
    exact ⟨hs, fun _ _ h ↦ by cases h⟩
  · rw [ho] at h hs
    dsimp only at h
    cases hp : w.previous? id with
    | none =>
      rw [hp] at h
      obtain ⟨rfl, rfl⟩ := Prod.mk.inj h
      exact ⟨hs, fun _ _ h ↦ by cases h⟩
    | some m =>
      rw [hp] at h
      obtain ⟨rfl, rfl⟩ := Prod.mk.inj h
      refine ⟨hs.trans (sameModules_count _ _), fun m' changed h ↦ ?_⟩
      cases h
      exact .recorded (by rw [ho]) hp
  · rw [ho] at h hs
    dsimp only at h
    rw [hs.transpile] at h
    cases ht : w.graph.transpile w.disk id s o (w.previous? id) with
    | error stop =>
      rw [ht] at h
      obtain ⟨rfl, rfl⟩ := Prod.mk.inj h
      exact ⟨hs, fun _ _ h ↦ by cases h⟩
    | ok m =>
      rw [ht] at h
      obtain ⟨rfl, rfl⟩ := Prod.mk.inj h
      refine ⟨hs.trans (sameModules_count _ _), fun m' changed h ↦ ?_⟩
      cases h
      exact .compiled (by rw [ho]) ht

theorem sameModules_persistBy (w : World) (a : Disk.Action Unit) :
    SameModules { w with disk := (w.disk.perform a).2 } (w.persistBy a) := by
  rw [persistBy]
  generalize w.disk.perform a = r
  obtain ⟨r, d⟩ := r
  cases r <;> exact ⟨rfl, rfl, rfl, rfl, rfl, rfl⟩

structure SameGraph (w w' : World) : Prop where
  folder : w'.graph.folder = w.graph.folder
  store : w'.graph.store = w.graph.store
  settings : w'.graph.settings = w.graph.settings
  modules : w'.graph.modules = w.graph.modules
  remote : w'.graph.remote = w.graph.remote

theorem SameGraph.has {w w' : World} (h : SameGraph w w') {id : String} {m : Module} :
    w'.Has id m ↔ w.Has id m := by
  rw [Has, Has, module?, module?, remoteModule?, remoteModule?, h.modules, h.remote]

theorem SameGraph.trans {w w' w'' : World} (h : SameGraph w w') (h' : SameGraph w' w'') :
    SameGraph w w'' :=
  ⟨h'.folder.trans h.folder, h'.store.trans h.store, h'.settings.trans h.settings,
    h'.modules.trans h.modules, h'.remote.trans h.remote⟩

theorem sameGraph_persistAlias (w : World) (a : Alias) : SameGraph w (w.persistAlias a) := by
  rw [persistAlias]
  split
  · exact ⟨rfl, rfl, rfl, rfl, rfl⟩
  · have hs := sameModules_persistBy w (ArtifactStore.writeCode
      (w.graph.store.codePath a.target.stem (some a.hashPrefix)) a.target.code a.target.sourceMap)
    exact ⟨hs.folder, hs.store, hs.settings, hs.modules, hs.remote⟩

theorem sameGraph_persistAliases (w : World) (visited : List String) :
    SameGraph w (w.persistAliases visited) := by
  have hall : ∀ (as : List Alias) (w : World), SameGraph w (as.foldl persistAlias w) := by
    intro as
    induction as with
    | nil => exact fun _ ↦ ⟨rfl, rfl, rfl, rfl, rfl⟩
    | cons a as ih =>
      intro w
      rw [List.foldl_cons]
      exact (sameGraph_persistAlias w a).trans (ih (w.persistAlias a))
  rw [persistAliases]
  exact hall _ w

theorem modules_finish (w : World) (m : Module) (changed : Bool) :
    (w.finish m changed).graph.folder = w.graph.folder ∧
    (w.finish m changed).graph.store = w.graph.store ∧
    (w.finish m changed).graph.settings = w.graph.settings ∧
    (w.finish m changed).graph.modules =
      (if m.isRemote then w.graph.modules else w.graph.modules.insert m) ∧
    (w.finish m changed).graph.remote =
      (if m.isRemote then w.graph.remote.insert m else w.graph.remote) := by
  have hp : ∀ a, SameModules w { w.persistBy a with disk := w.disk } := by
    intro a
    rw [persistBy]
    split <;> exact ⟨rfl, rfl, rfl, rfl, rfl, rfl⟩
  have h : ∀ w' : World, SameModules w { w' with disk := w.disk } →
      (w'.register m).graph.folder = w.graph.folder ∧ (w'.register m).graph.store = w.graph.store ∧
      (w'.register m).graph.settings = w.graph.settings ∧
      (w'.register m).graph.modules =
        (if m.isRemote then w.graph.modules else w.graph.modules.insert m) ∧
      (w'.register m).graph.remote =
        (if m.isRemote then w.graph.remote.insert m else w.graph.remote) := by
    intro w' hw
    have h1 := hw.folder
    have h2 := hw.store
    have h3 := hw.settings
    have h4 := hw.modules
    have h5 := hw.remote
    dsimp only at h1 h2 h3 h4 h5
    rw [register]
    split
    · exact ⟨h1, h2, h3, h4, by rw [← h5]⟩
    · exact ⟨h1, h2, h3, by rw [← h4], h5⟩
  rw [finish]
  split
  · exact h _ (hp _)
  · exact h _ (.refl w)

theorem find?_finish_of_ne (w : World) {m : Module} (changed : Bool) {id : String} (h : m.id ≠ id) :
    (w.finish m changed).graph.modules.find? id = w.graph.modules.find? id ∧
      (w.finish m changed).graph.remote.find? id = w.graph.remote.find? id := by
  obtain ⟨-, -, -, hm, hr⟩ := w.modules_finish m changed
  rw [hm, hr]
  split
  · exact ⟨rfl, ModuleTable.find?_insert_of_ne h⟩
  · exact ⟨ModuleTable.find?_insert_of_ne h, rfl⟩

theorem has_finish_of_ne (w : World) {m : Module} (changed : Bool) {id : String} (h : m.id ≠ id)
    (m' : Module) : (w.finish m changed).Has id m' ↔ w.Has id m' := by
  obtain ⟨hm, hr⟩ := w.find?_finish_of_ne changed h
  rw [Has, Has, module?, module?, remoteModule?, remoteModule?, hm, hr]

theorem Each.of_finish {w : World} {P : Module → Prop} {m : Module} {changed : Bool}
    (h : (w.finish m changed).Each P) (hm : ∀ m', w.Has m.id m' → P m') : w.Each P := by
  intro id m' hm'
  by_cases hid : m.id = id
  · exact hm m' (hid ▸ hm')
  · exact h id m' ((w.has_finish_of_ne changed hid m').2 hm')

theorem has_finish_self (w : World) (m : Module) (changed : Bool) :
    (w.finish m changed).Has m.id m := by
  obtain ⟨-, -, -, hm, hr⟩ := w.modules_finish m changed
  rw [Has, module?, remoteModule?, hm, hr]
  split
  · exact .inr ModuleTable.find?_insert_self
  · exact .inl ModuleTable.find?_insert_self

/-- What is registered after a module is entered into the graph is the module, or was before. -/
theorem eq_or_has_of_has_finish {m m' : Module} {changed : Bool}
    (h : (w.finish m changed).Has id m') : m' = m ∨ w.Has id m' := by
  obtain ⟨-, -, -, hm, hr⟩ := w.modules_finish m changed
  have hinsert : ∀ {t : ModuleTable}, (t.insert m).find? id = some m' →
      m' = m ∨ t.find? id = some m' := by
    intro t ht
    rw [ModuleTable.find?_insert] at ht
    split at ht
    · exact .inl (Option.some_inj.1 ht).symm
    · exact .inr ht
  rw [Has, module?, remoteModule?, hm, hr] at h
  by_cases hrem : m.isRemote = true
  · rw [if_pos hrem, if_pos hrem] at h
    rcases h with h | h
    · exact .inr (.inl h)
    · exact (hinsert h).imp_right .inr
  · rw [if_neg hrem, if_neg hrem] at h
    rcases h with h | h
    · exact (hinsert h).imp_right .inl
    · exact .inr (.inr h)

theorem disk_register (w : World) (m : Module) : (w.register m).disk = w.disk := rfl

theorem disk_finish (w : World) (m : Module) (changed : Bool) :
    (w.finish m changed).disk = if changed then (w.persist m).disk else w.disk := by
  rw [finish, disk_register]
  split <;> rfl

theorem disk_persistBy (w : World) (a : Disk.Action Unit) :
    (w.persistBy a).disk = (w.disk.perform a).2 := by
  rw [persistBy]
  generalize w.disk.perform a = r
  obtain ⟨r, d⟩ := r
  cases r <;> rfl

end World

theorem of_guard {p : Prop} [Decidable p] {u : Unit} (h : (guard p : Option Unit) = some u) : p := by
  rw [guard] at h
  split at h
  · assumption
  · cases h

theorem loadPersisted?_eq_some {g : Graph} {disk : Disk} {id : String} {m : Module}
    (h : g.loadPersisted? disk id = some m) : ∃ found code map,
      g.store.readRecord? disk (ModuleId.stem id) = some found ∧ found.sourceFile = id ∧
      ArtifactStore.readText? disk (g.store.codePath (ModuleId.stem id)
        (if found.isRemote then none else some found.hash)) = some code ∧
      Digest.contentHash code = found.hash ∧
      m = ⟨found.sourceFile, found.dialect, found.sourceHash, found.isRemote, found.hash, code, map,
        g.store.codePath (ModuleId.stem id) (if found.isRemote then none else some found.hash),
        found.dependencies, found.slots⟩ := by
  simp only [loadPersisted?, Option.bind_eq_bind, Option.bind_eq_some_iff] at h
  obtain ⟨found, hr, _, hs, code, hc, _, hv, h⟩ := h
  have hv := of_guard hv
  rw [Bool.and_eq_true, decide_eq_true_eq] at hv
  exact ⟨found, code, _, hr, of_guard hs, hc, hv.1, (Option.some_inj.1 h).symm⟩

theorem transpile_eq_ok {g : Graph} {disk : Disk} {id : String} {s : Source} {o : Options}
    {previous : Option Module} {m : Module} (h : g.transpile disk id s o previous = .ok m) :
    ∃ c changed code,
      Compiled.compile (g.linkage disk id) (o.dialect?.getD s.dialect) s.text g.settings.sourceMap =
        .ok c ∧
      HashSlot.fill c.code c.slots (c.dependencies.map (g.knownHash previous)) =
        some (changed, code) ∧
      m = g.sealed ⟨id, o.dialect?.getD s.dialect, s.hash, ModuleId.isRemote id, "", code,
        c.sourceMap, "", c.dependencies.map fun path ↦ ⟨path, g.knownHash previous path⟩,
        c.slots⟩ := by
  rw [transpile] at h
  dsimp only at h
  cases hc : Compiled.compile (g.linkage disk id) (o.dialect?.getD s.dialect) s.text
    g.settings.sourceMap with
  | error cause => rw [hc] at h; cases h
  | ok c =>
    rw [hc] at h
    dsimp only at h
    have hmap : c.dependencies.map ((·.hash) ∘ fun path ↦
        Dependency.mk path (g.knownHash previous path)) =
        c.dependencies.map (g.knownHash previous) := rfl
    rw [List.map_map, hmap] at h
    cases hf : HashSlot.fill c.code c.slots (c.dependencies.map (g.knownHash previous)) with
    | none => rw [hf] at h; cases h
    | some r =>
      rw [hf] at h
      exact ⟨c, r.1, r.2, rfl, hf, (Except.ok.inj h).symm⟩

theorem relink_eq_ok {g : Graph} {m m' : Module} {ds : List Dependency}
    (h : g.relink m ds = .ok m') : ∃ changed code,
      HashSlot.fill m.code m.slots (ds.map (·.hash)) = some (changed, code) ∧
      m' = if changed then g.sealed { m with dependencies := ds, code }
        else { m with dependencies := ds } := by
  rw [relink] at h
  dsimp only at h
  rcases hf : HashSlot.fill m.code m.slots (ds.map (·.hash)) with _ | ⟨_ | _, code⟩
  · rw [hf] at h; cases h
  · rw [hf] at h
    exact ⟨false, code, hf, (Except.ok.inj h).symm⟩
  · rw [hf] at h
    exact ⟨true, code, hf, (Except.ok.inj h).symm⟩

theorem Prepares.id_eq {w : World} {id : String} {o : Options} {m : Module} {changed : Bool}
    (h : Prepares w id o m changed) : m.id = id := by
  cases h with
  | compiled _ ht =>
    obtain ⟨c, _, code, -, -, rfl⟩ := transpile_eq_ok ht
    rfl
  | @recorded m _ hp =>
    rcases Option.or_eq_some_iff.1 hp with hp | ⟨-, hp⟩
    · exact ModuleTable.id_of_find? (m := m) hp
    · obtain ⟨found, code, map, -, hs, -, -, rfl⟩ := loadPersisted?_eq_some hp
      exact hs

theorem Prepares.isRemote_eq {w : World} {id : String} {o : Options} {m : Module} {changed : Bool}
    (h : Prepares w id o m changed) : m.isRemote = ModuleId.isRemote id := by
  cases h with
  | compiled _ ht =>
    obtain ⟨_, _, _, -, -, rfl⟩ := transpile_eq_ok ht
    rfl
  | recorded => rfl

theorem relink_id {g : Graph} {m m' : Module} {ds : List Dependency}
    (h : g.relink m ds = .ok m') : m'.id = m.id ∧ m'.isRemote = m.isRemote := by
  obtain ⟨changed, code, -, rfl⟩ := relink_eq_ok h
  cases changed <;> exact ⟨rfl, rfl⟩

theorem relink_dependencies {g : Graph} {m m' : Module} {ds : List Dependency}
    (h : g.relink m ds = .ok m') : m'.dependencies = ds := by
  obtain ⟨changed, code, -, rfl⟩ := relink_eq_ok h
  cases changed <;> rfl

end Graph
end SiteCompiler
