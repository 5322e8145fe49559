import SiteCompiler.Proofs.Graph.World

namespace SiteCompiler.Graph

inductive Task where
  | visit (id : String) (o : Options)
  | settle (importer : String) (dependencies : List Dependency)

inductive Outcome where
  | found (m : Module)
  | settled (dependencies : List Dependency) (changed : Bool)
  | stopped (stop : Stop)

namespace Run

def entered (r : Run) (id : String) (world : World) : Run :=
  { r with world, visited := id :: r.visited }

def inside (r : Run) (m : Module) : Run :=
  { r with stack := m :: r.stack }

def finished (r : Run) (stack : List Module) (m : Module) (changed : Bool) : Run :=
  { r with stack, world := r.world.finish m changed }

def noted (r : Run) (id : String) : Run :=
  { r with cyclic := cycleTo r.stack id ++ r.cyclic }

def renews (r : Run) (importer : String) (d : Dependency) (m : Module) : Bool :=
  m.hash ≠ d.hash && !r.keepsName importer d

def settledAs (r : Run) (importer : String) (d : Dependency) (m : Module) : Dependency :=
  if r.renews importer d m then { d with hash := m.hash } else d

end Run

open Run

inductive Yields : Run → Task → Outcome → Run → Prop
  | deep (r : Run) (id : String) (o : Options) :
      Yields r (.visit id o) (.stopped (.error (.notFound id))) r
  | vendored {r : Run} {id : String} {o : Options} {m : Module}
      (remote : r.world.graph.remote.find? id = some m) : Yields r (.visit id o) (.found m) r
  | again {r : Run} {id : String} {o : Options} {m : Module}
      (remote : r.world.graph.remote.find? id = none) (visited : id ∈ r.visited)
      (known : (r.stack.find? (·.id = id)).or (r.world.graph.modules.find? id) = some m) :
      Yields r (.visit id o) (.found m) (r.noted id)
  | lost {r : Run} {id : String} {o : Options}
      (remote : r.world.graph.remote.find? id = none) (visited : id ∈ r.visited)
      (known : (r.stack.find? (·.id = id)).or (r.world.graph.modules.find? id) = none) :
      Yields r (.visit id o) (.stopped (.error (.notFound id))) (r.noted id)
  | unprepared {r : Run} {id : String} {o : Options} {stop : Stop} {world : World}
      (remote : r.world.graph.remote.find? id = none) (visited : id ∉ r.visited)
      (prepared : r.world.prepare id o = (.error stop, world)) :
      Yields r (.visit id o) (.stopped stop) (r.entered id world)
  | leaf {r : Run} {id : String} {o : Options} {m : Module} {changed : Bool} {world : World}
      (remote : r.world.graph.remote.find? id = none) (visited : id ∉ r.visited)
      (prepared : r.world.prepare id o = (.ok (m, changed), world))
      (alone : o.alone = true ∨ m.dependencies = []) :
      Yields r (.visit id o) (.found m) ((r.entered id world).finished r.stack m changed)
  | dropped {r inner : Run} {id : String} {o : Options} {m : Module} {changed : Bool}
      {world : World} {stop : Stop}
      (remote : r.world.graph.remote.find? id = none) (visited : id ∉ r.visited)
      (prepared : r.world.prepare id o = (.ok (m, changed), world)) (whole : o.alone = false)
      (below : Yields ((r.entered id world).inside m) (.settle m.id m.dependencies)
        (.stopped stop) inner) :
      Yields r (.visit id o) (.stopped stop) inner
  | kept {r inner : Run} {id : String} {o : Options} {m : Module} {changed : Bool}
      {world : World} {dependencies : List Dependency}
      (remote : r.world.graph.remote.find? id = none) (visited : id ∉ r.visited)
      (prepared : r.world.prepare id o = (.ok (m, changed), world)) (whole : o.alone = false)
      (below : Yields ((r.entered id world).inside m) (.settle m.id m.dependencies)
        (.settled dependencies false) inner) :
      Yields r (.visit id o) (.found m) (inner.finished r.stack m changed)
  | broken {r inner : Run} {id : String} {o : Options} {m : Module} {changed : Bool}
      {world : World} {dependencies : List Dependency} {stop : Stop}
      (remote : r.world.graph.remote.find? id = none) (visited : id ∉ r.visited)
      (prepared : r.world.prepare id o = (.ok (m, changed), world)) (whole : o.alone = false)
      (below : Yields ((r.entered id world).inside m) (.settle m.id m.dependencies)
        (.settled dependencies true) inner)
      (relinked : inner.world.graph.relink m dependencies = .error stop) :
      Yields r (.visit id o) (.stopped stop) inner
  | relinked {r inner : Run} {id : String} {o : Options} {m m' : Module} {changed : Bool}
      {world : World} {dependencies : List Dependency}
      (remote : r.world.graph.remote.find? id = none) (visited : id ∉ r.visited)
      (prepared : r.world.prepare id o = (.ok (m, changed), world)) (whole : o.alone = false)
      (below : Yields ((r.entered id world).inside m) (.settle m.id m.dependencies)
        (.settled dependencies true) inner)
      (relinked : inner.world.graph.relink m dependencies = .ok m') :
      Yields r (.visit id o) (.found m') (inner.finished r.stack m' true)
  | done (r : Run) (importer : String) : Yields r (.settle importer []) (.settled [] false) r
  | failed {r r' : Run} {importer : String} {d : Dependency} {rest : List Dependency} {stop : Stop}
      (first : Yields r (.visit d.path .default) (.stopped stop) r') :
      Yields r (.settle importer (d :: rest)) (.stopped stop) r'
  | cut {r r' r'' : Run} {importer : String} {d : Dependency} {rest : List Dependency} {m : Module}
      {stop : Stop}
      (first : Yields r (.visit d.path .default) (.found m) r')
      (others : Yields r' (.settle importer rest) (.stopped stop) r'') :
      Yields r (.settle importer (d :: rest)) (.stopped stop) r''
  | next {r r' r'' : Run} {importer : String} {d : Dependency} {rest settled : List Dependency}
      {m : Module} {changed : Bool}
      (first : Yields r (.visit d.path .default) (.found m) r')
      (others : Yields r' (.settle importer rest) (.settled settled changed) r'') :
      Yields r (.settle importer (d :: rest))
        (.settled (r'.settledAs importer d m :: settled) (r'.renews importer d m || changed)) r''

def Outcome.ofVisit : Except Stop Module → Outcome
  | .ok m => .found m
  | .error stop => .stopped stop

def Outcome.ofSettle : Except Stop (List Dependency × Bool) → Outcome
  | .ok (dependencies, changed) => .settled dependencies changed
  | .error stop => .stopped stop

theorem yields_settle {visit : Run → String → Except Stop Module × Run}
    (hv : ∀ r id, Yields r (.visit id .default) (.ofVisit (visit r id).1) (visit r id).2)
    (importer : String) (r : Run) (ds : List Dependency) :
    Yields r (.settle importer ds) (.ofSettle (settle visit importer r ds).1)
      (settle visit importer r ds).2 := by
  induction ds generalizing r with
  | nil => exact .done r importer
  | cons d rest ih =>
    have h := hv r d.path
    rw [settle]
    rcases hr : visit r d.path with ⟨stop | m, r'⟩
    · rw [hr] at h
      exact .failed h
    · rw [hr] at h
      have h' := ih r'
      dsimp only
      rcases hs : settle visit importer r' rest with ⟨stop | ⟨settled, changed⟩, r''⟩
      · rw [hs] at h'
        exact .cut h h'
      · rw [hs] at h'
        exact .next h h'

def concluded (r : Run) (m : Module) (changed : Bool) :
    Except Stop (List Dependency × Bool) × Run → Except Stop Module × Run
  | (.error stop, inner) => (.error stop, inner)
  | (.ok (_, false), inner) => (.ok m, inner.finished r.stack m changed)
  | (.ok (dependencies, true), inner) =>
    match inner.world.graph.relink m dependencies with
    | .error stop => (.error stop, inner)
    | .ok m => (.ok m, inner.finished r.stack m true)

namespace Run

variable {visit : Run → String → Except Stop Module × Run} {importer id : String} {r r' : Run}
  {o : Options} {m : Module} {changed : Bool} {world : World} {depth : Nat}

theorem settle_cons {d : Dependency} {rest : List Dependency}
    (h : visit r d.path = (.ok m, r')) : settle visit importer r (d :: rest) =
      ((settle visit importer r' rest).1.map fun out ↦
        (r'.settledAs importer d m :: out.1, r'.renews importer d m || out.2),
        (settle visit importer r' rest).2) := by
  rw [Run.settle, h]
  dsimp only
  rcases settle visit importer r' rest with ⟨stop | ⟨ds, changed⟩, r''⟩ <;> rfl

theorem settle_cons_error {d : Dependency} {rest : List Dependency} {stop : Stop}
    (h : visit r d.path = (.error stop, r')) :
    settle visit importer r (d :: rest) = (.error stop, r') := by
  rw [Run.settle, h]

theorem visit_of_prepared (hr : r.world.graph.remote.find? id = none) (hv : id ∉ r.visited)
    (hp : r.world.prepare id o = (.ok (m, changed), world)) (ha : o.alone = false) :
    Run.visit (depth + 1) r id o = concluded r m changed
      (Run.settle (fun r id ↦ Run.visit depth r id .default) m.id ((r.entered id world).inside m)
        m.dependencies) := by
  rw [Run.visit, hr]
  dsimp only
  rw [if_neg fun hc ↦ hv (List.contains_iff_mem.1 hc), hp]
  dsimp only
  split
  · next hd =>
    rw [ha, Bool.false_or, List.isEmpty_iff] at hd
    rw [hd]
    rfl
  · rw [show (⟨world, id :: r.visited, m :: r.stack, r.cyclic⟩ : Run) =
      (r.entered id world).inside m from rfl]
    rcases Run.settle (fun r id ↦ Run.visit depth r id .default) m.id
      ((r.entered id world).inside m) m.dependencies with ⟨stop | ⟨ds, _ | _⟩, inner⟩
    · rfl
    · rfl
    · rw [concluded]
      dsimp only
      cases inner.world.graph.relink m ds <;> rfl

theorem visit_of_unprepared {stop : Stop} (hr : r.world.graph.remote.find? id = none)
    (hv : id ∉ r.visited) (hp : r.world.prepare id o = (.error stop, world)) :
    Run.visit (depth + 1) r id o = (.error stop, r.entered id world) := by
  rw [Run.visit, hr]
  dsimp only
  rw [if_neg fun hc ↦ hv (List.contains_iff_mem.1 hc), hp]
  rfl

end Run

theorem yields_concluded {r : Run} {id : String} {o : Options} {m : Module} {changed : Bool}
    {world : World} (hr : r.world.graph.remote.find? id = none) (hv : id ∉ r.visited)
    (hp : r.world.prepare id o = (.ok (m, changed), world)) (hw : o.alone = false)
    {q : Except Stop (List Dependency × Bool) × Run}
    (h : Yields ((r.entered id world).inside m) (.settle m.id m.dependencies) (.ofSettle q.1) q.2) :
    Yields r (.visit id o) (.ofVisit (concluded r m changed q).1) (concluded r m changed q).2 := by
  obtain ⟨stop | ⟨ds, _ | _⟩, inner⟩ := q
  · exact .dropped hr hv hp hw h
  · exact .kept hr hv hp hw h
  · rw [concluded]
    cases hl : inner.world.graph.relink m ds with
    | error stop => exact .broken hr hv hp hw h hl
    | ok m' => exact .relinked hr hv hp hw h hl

theorem yields_visit (depth : Nat) (r : Run) (id : String) (o : Options) :
    Yields r (.visit id o) (.ofVisit (visit depth r id o).1) (visit depth r id o).2 := by
  induction depth generalizing r id o with
  | zero => exact .deep r id o
  | succ depth ih =>
    rw [visit]
    cases hr : r.world.graph.remote.find? id with
    | some m => exact .vendored hr
    | none =>
      dsimp only
      by_cases hv : r.visited.contains id = true
      · rw [if_pos hv, revisit]
        have hv := List.contains_iff_mem.1 hv
        dsimp only
        cases hk : (r.stack.find? (·.id = id)).or (r.world.graph.modules.find? id) with
        | none => exact .lost hr hv hk
        | some m => exact .again hr hv hk
      · rw [if_neg hv]
        have hv : id ∉ r.visited := fun hm ↦ hv (List.contains_iff_mem.2 hm)
        rcases hp : r.world.prepare id o with ⟨stop | ⟨m, changed⟩, world⟩
        · exact .unprepared hr hv hp
        · dsimp only
          by_cases ha : (o.alone || m.dependencies.isEmpty) = true
          · rw [if_pos ha]
            exact .leaf hr hv hp (by simpa using ha)
          · rw [if_neg ha]
            have hw : o.alone = false := by
              simp only [Bool.or_eq_true, not_or, Bool.not_eq_true] at ha
              exact ha.1
            have hs := yields_settle (fun r id ↦ ih r id .default) m.id
              ⟨world, id :: r.visited, m :: r.stack, r.cyclic⟩ m.dependencies
            have hc := yields_concluded hr hv hp hw hs
            generalize settle (fun r id ↦ visit depth r id .default) m.id
              ⟨world, id :: r.visited, m :: r.stack, r.cyclic⟩ m.dependencies = q at hc ⊢
            obtain ⟨stop | ⟨ds, _ | _⟩, inner⟩ := q
            · exact hc
            · exact hc
            · rw [concluded] at hc
              dsimp only
              cases hl : inner.world.graph.relink m ds <;> rw [hl] at hc <;> exact hc

/-- What a part of a run leaves as it is: the settings, and all that is registered under ids that
were visited before or are not visited in it. -/
structure Frame (r r' : Run) : Prop where
  folder : r'.world.graph.folder = r.world.graph.folder
  store : r'.world.graph.store = r.world.graph.store
  settings : r'.world.graph.settings = r.world.graph.settings
  visited : ∀ id ∈ r.visited, id ∈ r'.visited
  cyclic : ∀ id ∈ r.cyclic, id ∈ r'.cyclic
  modules : ∀ id, id ∈ r.visited ∨ id ∉ r'.visited →
    r'.world.graph.modules.find? id = r.world.graph.modules.find? id
  remote : ∀ id, id ∈ r.visited ∨ id ∉ r'.visited →
    r'.world.graph.remote.find? id = r.world.graph.remote.find? id
  vendored : ∀ id m, r.world.graph.remote.find? id = some m →
    r'.world.graph.remote.find? id = some m

namespace Frame

variable {r r' r'' : Run} {id : String} {world : World} {m : Module}

theorem refl (r : Run) : Frame r r :=
  ⟨rfl, rfl, rfl, fun _ h ↦ h, fun _ h ↦ h, fun _ _ ↦ rfl, fun _ _ ↦ rfl, fun _ _ h ↦ h⟩

theorem trans (h : Frame r r') (h' : Frame r' r'') : Frame r r'' := by
  have hor : ∀ id, id ∈ r.visited ∨ id ∉ r''.visited →
      (id ∈ r.visited ∨ id ∉ r'.visited) ∧ (id ∈ r'.visited ∨ id ∉ r''.visited) := by
    intro id hid
    rcases hid with hid | hid
    · exact ⟨.inl hid, .inl (h.visited id hid)⟩
    · exact ⟨.inr fun hm ↦ hid (h'.visited id hm), .inr hid⟩
  exact {
    folder := h'.folder.trans h.folder
    store := h'.store.trans h.store
    settings := h'.settings.trans h.settings
    visited := fun id hm ↦ h'.visited id (h.visited id hm)
    cyclic := fun id hm ↦ h'.cyclic id (h.cyclic id hm)
    modules := fun id hid ↦ (h'.modules id (hor id hid).2).trans (h.modules id (hor id hid).1)
    remote := fun id hid ↦ (h'.remote id (hor id hid).2).trans (h.remote id (hor id hid).1)
    vendored := fun id m hm ↦ h'.vendored id m (h.vendored id m hm) }

theorem noted (r : Run) (id : String) : Frame r (r.noted id) :=
  { refl r with cyclic := fun _ h ↦ List.mem_append_right _ h }

theorem entered (h : World.SameModules r.world world) : Frame r (r.entered id world) where
  folder := h.folder
  store := h.store
  settings := h.settings
  visited := fun _ hm ↦ List.mem_cons_of_mem id hm
  cyclic := fun _ hm ↦ hm
  modules := fun x _ ↦ by rw [Run.entered, h.modules]
  remote := fun x _ ↦ by rw [Run.entered, h.remote]
  vendored := fun x m hm ↦ by rw [Run.entered, h.remote]; exact hm

theorem finished {inner : Run} (h : Frame r inner) (hv : m.id ∉ r.visited)
    (hi : m.id ∈ inner.visited) (hr : inner.world.graph.remote.find? m.id = none)
    (stack : List Module) (changed : Bool) : Frame r (inner.finished stack m changed) := by
  obtain ⟨hf, hs, ht, -, -⟩ := inner.world.modules_finish m changed
  have hne : ∀ id, id ∈ r.visited ∨ id ∉ inner.visited → m.id ≠ id := by
    rintro id (hid | hid) rfl
    · exact hv hid
    · exact hid hi
  exact {
    folder := hf.trans h.folder
    store := hs.trans h.store
    settings := ht.trans h.settings
    visited := h.visited
    cyclic := h.cyclic
    modules := fun id hid ↦
      (inner.world.find?_finish_of_ne changed (hne id hid)).1.trans (h.modules id hid)
    remote := fun id hid ↦
      (inner.world.find?_finish_of_ne changed (hne id hid)).2.trans (h.remote id hid)
    vendored := by
      intro id m' hm
      have hm := h.vendored id m' hm
      have hid : m.id ≠ id := by
        rintro rfl
        rw [hr] at hm
        cases hm
      exact (inner.world.find?_finish_of_ne changed hid).2.trans hm }

theorem has (h : Frame r r') {id : String} (hid : id ∈ r.visited ∨ id ∉ r'.visited) (m : Module) :
    r'.world.Has id m ↔ r.world.Has id m := by
  rw [World.Has, World.Has, module?, module?, remoteModule?, remoteModule?, h.modules id hid,
    h.remote id hid]

/-- The modules in the middle of a run were there at its start or are there at its end. -/
theorem each (h : Frame r r') (h' : Frame r' r'') {P : Module → Prop} (hs : r.world.Each P)
    (ht : r''.world.Each P) : r'.world.Each P := by
  intro id m hm
  by_cases hv : id ∈ r'.visited
  · exact ht id m ((h'.has (.inl hv) m).2 hm)
  · exact hs id m ((h.has (.inr hv) m).1 hm)

end Frame

theorem Prepares.of_eq {w w' : World} {id : String} {o : Options} {m : Module} {changed : Bool}
    (h : w.prepare id o = (.ok (m, changed), w')) : Prepares w id o m changed :=
  (World.prepare_eq h).2 m changed rfl

theorem Frame.concluded {r inner : Run} {id : String} {o : Options} {m m' : Module}
    {changed : Bool} {world : World} (hr : r.world.graph.remote.find? id = none)
    (hv : id ∉ r.visited) (hp : r.world.prepare id o = (.ok (m, changed), world))
    (h : Frame ((r.entered id world).inside m) inner) (hm : m'.id = m.id) (changed' : Bool) :
    Frame r (inner.finished r.stack m' changed') := by
  have hid : m'.id = id := hm.trans (Prepares.of_eq hp).id_eq
  have he : Frame r (r.entered id world) := .entered (World.prepare_eq hp).1
  have hall : Frame r inner := he.trans ⟨h.folder, h.store, h.settings, h.visited, h.cyclic,
    h.modules, h.remote, h.vendored⟩
  have hin : id ∈ ((r.entered id world).inside m).visited := List.mem_cons_self
  refine hall.finished (hid ▸ hv) (hid ▸ h.visited id hin) ?_ r.stack changed'
  rw [hid, h.remote id (.inl hin)]
  change world.graph.remote.find? id = none
  rw [(World.prepare_eq hp).1.remote]
  exact hr

theorem Frame.each_inside {r inner : Run} {id : String} {o : Options} {m m' : Module}
    {changed changed' : Bool} {world : World} {P : Module → Prop}
    (h : Frame ((r.entered id world).inside m) inner)
    (hp : r.world.prepare id o = (.ok (m, changed), world)) (hs : r.world.Each P)
    (hm : m'.id = m.id) (ht : (inner.world.finish m' changed').Each P) : inner.world.Each P := by
  refine ht.of_finish fun m'' hm'' ↦ ?_
  have hid : m'.id = id := hm.trans (Prepares.of_eq hp).id_eq
  have hin : id ∈ ((r.entered id world).inside m).visited := List.mem_cons_self
  rw [hid, h.has (.inl hin)] at hm''
  exact hs id m'' ((World.prepare_eq hp).1.has.1 hm'')

/-- A part of a run changes nothing outside of what it visits, and gives the stack back unless it is
stopped. -/
theorem Yields.frame {r r' : Run} {t : Task} {out : Outcome} (h : Yields r t out r') :
    Frame r r' ∧ ((∀ stop, out ≠ .stopped stop) → r'.stack = r.stack) := by
  have hinside : ∀ {r inner : Run} {id : String} {world : World} {m : Module},
      World.SameModules r.world world → Frame ((r.entered id world).inside m) inner →
      Frame r inner := fun hs h ↦
    (Frame.entered hs).trans ⟨h.folder, h.store, h.settings, h.visited, h.cyclic, h.modules,
      h.remote, h.vendored⟩
  induction h with
  | deep r => exact ⟨.refl r, fun _ ↦ rfl⟩
  | vendored => exact ⟨.refl _, fun _ ↦ rfl⟩
  | again => exact ⟨.noted _ _, fun _ ↦ rfl⟩
  | lost => exact ⟨.noted _ _, fun _ ↦ rfl⟩
  | unprepared _ _ hp => exact ⟨.entered (World.prepare_eq hp).1, fun _ ↦ rfl⟩
  | @leaf r id o m changed world hr hv hp _ =>
    have h : Frame r ((r.entered id world).finished r.stack m changed) :=
      Frame.concluded hr hv hp (.refl _) rfl changed
    exact ⟨h, fun _ ↦ rfl⟩
  | dropped _ _ hp _ _ ih =>
    exact ⟨hinside (World.prepare_eq hp).1 ih.1, fun h ↦ absurd rfl (h _)⟩
  | kept hr hv hp _ _ ih => exact ⟨ih.1.concluded hr hv hp rfl _, fun _ ↦ rfl⟩
  | broken _ _ hp _ _ _ ih =>
    exact ⟨hinside (World.prepare_eq hp).1 ih.1, fun h ↦ absurd rfl (h _)⟩
  | relinked hr hv hp _ _ hl ih =>
    exact ⟨ih.1.concluded hr hv hp (relink_id hl).1 _, fun _ ↦ rfl⟩
  | done r => exact ⟨.refl r, fun _ ↦ rfl⟩
  | failed _ ih => exact ⟨ih.1, fun h ↦ absurd rfl (h _)⟩
  | cut _ _ ih ih' => exact ⟨ih.1.trans ih'.1, fun h ↦ absurd rfl (h _)⟩
  | next _ _ ih ih' =>
    refine ⟨ih.1.trans ih'.1, fun _ ↦ ?_⟩
    rw [ih'.2 fun _ h ↦ Outcome.noConfusion h, ih.2 fun _ h ↦ Outcome.noConfusion h]

theorem Run.settledAs_path (r : Run) (importer : String) (d : Dependency) (m : Module) :
    (r.settledAs importer d m).path = d.path := by
  rw [settledAs]
  split <;> rfl

theorem Yields.paths {r r' : Run} {importer : String} {ds ds' : List Dependency} {changed : Bool}
    (h : Yields r (.settle importer ds) (.settled ds' changed) r') :
    ds'.map (·.path) = ds.map (·.path) := by
  induction ds generalizing r ds' changed with
  | nil =>
    cases h
    rfl
  | cons d ds ih =>
    cases h with
    | next _ ho => rw [List.map_cons, List.map_cons, ih ho, Run.settledAs_path]

theorem Yields.settled_eq {r r' : Run} {importer : String} {ds ds' : List Dependency}
    (h : Yields r (.settle importer ds) (.settled ds' false) r') : ds' = ds := by
  induction ds generalizing r ds' with
  | nil =>
    cases h
    rfl
  | cons d ds ih =>
    generalize hc : false = changed at h
    cases h with
    | next hf ho =>
      obtain ⟨hr, rfl⟩ := Bool.or_eq_false_iff.1 hc.symm
      rw [ih ho, Run.settledAs, hr, if_neg Bool.false_ne_true]

/-- What a call comes to: the id means nothing, or the run from it is stopped, or it ends with a
module and stores what is imported under older names. -/
theorem compile_cases (w : World) (text : String) (o : Options) :
    (∃ cause, w.entryId text = .error cause ∧ w.compile text o = (.error (.error cause), w)) ∨
    ∃ id r, w.entryId text = .ok id ∧
      ((∃ stop, Yields (Run.start w) (.visit id o) (.stopped stop) r ∧
        w.compile text o = (.error stop, r.world)) ∨
      ∃ m, Yields (Run.start w) (.visit id o) (.found m) r ∧
        w.compile text o = (.ok m, r.world.persistAliases r.visited)) := by
  rw [World.compile]
  cases he : w.entryId text with
  | error cause => exact .inl ⟨cause, rfl, rfl⟩
  | ok id =>
    have hy := yields_visit w.depthBound (Run.start w) id o
    dsimp only
    rcases hv : Run.visit w.depthBound (Run.start w) id o with ⟨stop | m, r⟩
    · rw [hv] at hy
      exact .inr ⟨id, r, rfl, .inl ⟨stop, hy, rfl⟩⟩
    · rw [hv] at hy
      exact .inr ⟨id, r, rfl, .inr ⟨m, hy, rfl⟩⟩

theorem World.store_compile (w : World) (text : String) (o : Options) :
    (w.compile text o).2.graph.store = w.graph.store := by
  rcases compile_cases w text o with ⟨cause, -, hc⟩ | ⟨id, r, -, ⟨stop, hy, hc⟩ | ⟨m, hy, hc⟩⟩
  · rw [hc]
  · rw [hc]
    exact hy.frame.1.store
  · rw [hc]
    exact (sameGraph_persistAliases r.world r.visited).store.trans hy.frame.1.store

end SiteCompiler.Graph
