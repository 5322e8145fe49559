import SiteCompiler.Proofs.Graph.Yields

namespace SiteCompiler.Graph

/-- The tasks of a kind can be done: modules are prepared, found again and linked anew, and what is
done for their dependencies is of the kind too. The modules that are prepared have known ids. -/
structure Feasible (known : List String) (P : Run → Task → Prop) : Prop where
  prepares : ∀ {r : Run} {id : String}, P r (.visit id .default) →
    r.world.graph.remote.find? id = none → id ∉ r.visited → id ∈ known ∧
      ∃ m changed world, r.world.prepare id .default = (.ok (m, changed), world) ∧
        P ((r.entered id world).inside m) (.settle m.id m.dependencies)
  finds : ∀ {r : Run} {id : String}, P r (.visit id .default) →
    r.world.graph.remote.find? id = none → id ∈ r.visited →
      ∃ m, (r.stack.find? (·.id = id)).or (r.world.graph.modules.find? id) = some m
  relinks : ∀ {r inner : Run} {id : String} {m : Module} {changed : Bool} {world : World}
    {ds : List Dependency}, P r (.visit id .default) → r.world.graph.remote.find? id = none →
    id ∉ r.visited → r.world.prepare id .default = (.ok (m, changed), world) →
    Yields ((r.entered id world).inside m) (.settle m.id m.dependencies) (.settled ds true) inner →
      ∃ m', inner.world.graph.relink m ds = .ok m'
  first : ∀ {r : Run} {importer : String} {d : Dependency} {rest : List Dependency},
    P r (.settle importer (d :: rest)) → P r (.visit d.path .default)
  others : ∀ {r r' : Run} {importer : String} {d : Dependency} {rest : List Dependency} {m : Module},
    P r (.settle importer (d :: rest)) → Yields r (.visit d.path .default) (.found m) r' →
      P r' (.settle importer rest)

namespace Run

structure Nested (known : List String) (r : Run) : Prop where
  nodup : (r.stack.map (·.id)).Nodup
  known : ∀ m ∈ r.stack, m.id ∈ known
  visited : ∀ m ∈ r.stack, m.id ∈ r.visited

variable {known : List String} {P : Run → Task → Prop} {r : Run} {id : String} {m : Module}
  {depth : Nat}

theorem Nested.length_le (h : r.Nested known) : r.stack.length ≤ known.length := by
  have hsub : r.stack.map (·.id) ⊆ known := by
    intro x hx
    obtain ⟨m, hm, rfl⟩ := List.mem_map.1 hx
    exact h.known m hm
  have hle := (h.nodup.subperm hsub).length_le
  rwa [List.length_map] at hle

theorem Nested.inside (h : r.Nested known) (hv : id ∉ r.visited) (hk : id ∈ known)
    (hid : m.id = id) (world : World) : ((r.entered id world).inside m).Nested known := by
  subst hid
  refine ⟨List.nodup_cons.2 ⟨fun hm ↦ ?_, h.nodup⟩, fun x hx ↦ ?_, fun x hx ↦ ?_⟩
  · obtain ⟨x, hx, he⟩ := List.mem_map.1 hm
    have hvisited := h.visited x hx
    rw [show x.id = m.id from he] at hvisited
    exact hv hvisited
  · rcases List.mem_cons.1 hx with rfl | hx
    · exact hk
    · exact h.known x hx
  · rcases List.mem_cons.1 hx with rfl | hx
    · exact List.mem_cons_self
    · exact List.mem_cons_of_mem _ (h.visited x hx)

theorem Nested.after {r' : Run} {t : Task} {out : Outcome} (h : r.Nested known)
    (hy : Yields r t out r') (hout : ∀ stop, out ≠ .stopped stop) : r'.Nested known := by
  obtain ⟨hframe, hs⟩ := hy.frame
  have hs := hs hout
  exact ⟨hs ▸ h.nodup, hs ▸ h.known,
    fun m hm ↦ hframe.visited _ (h.visited m (hs ▸ hm))⟩

def Tracked (r : Run) : Prop :=
  ∀ x ∈ r.visited, (∃ m ∈ r.stack, m.id = x) ∨ ∃ m, r.world.Has x m

theorem Tracked.inside {o : Options} {changed : Bool} {world : World} (h : r.Tracked)
    (hp : r.world.prepare id o = (.ok (m, changed), world)) :
    ((r.entered id world).inside m).Tracked := by
  intro x hx
  rcases List.mem_cons.1 hx with rfl | hx
  · exact .inl ⟨m, List.mem_cons_self, (Prepares.of_eq hp).id_eq⟩
  · rcases h x hx with ⟨m', hm', hid⟩ | ⟨m', hm'⟩
    · exact .inl ⟨m', List.mem_cons_of_mem m hm', hid⟩
    · exact .inr ⟨m', (World.prepare_eq hp).1.has.2 hm'⟩

theorem Tracked.finish {inner : Run} {m' : Module} (h : inner.Tracked)
    (hs : inner.stack = m :: r.stack) (hid : m'.id = m.id) (changed : Bool) :
    (inner.finished r.stack m' changed).Tracked := by
  intro x hx
  by_cases hm : m'.id = x
  · exact .inr ⟨m', hm ▸ inner.world.has_finish_self m' changed⟩
  · rcases h x hx with ⟨m₀, hm₀, hx⟩ | ⟨m₀, hm₀⟩
    · rw [hs] at hm₀
      rcases List.mem_cons.1 hm₀ with rfl | hm₀
      · exact absurd (hid.trans hx) hm
      · exact .inl ⟨m₀, hm₀, hx⟩
    · exact .inr ⟨m₀, (inner.world.has_finish_of_ne changed hm m₀).2 hm₀⟩

theorem Tracked.exists_known (h : r.Tracked) (hv : id ∈ r.visited)
    (hr : r.world.graph.remote.find? id = none) :
    ∃ m, (r.stack.find? (·.id = id)).or (r.world.graph.modules.find? id) = some m := by
  refine Option.isSome_iff_exists.1 ?_
  rw [Option.isSome_or]
  rcases h id hv with ⟨m, hm, rfl⟩ | ⟨m, hm | hm⟩
  · rw [List.find?_isSome.2 ⟨m, hm, decide_eq_true rfl⟩, Bool.true_or]
  · rw [show r.world.graph.modules.find? id = some m from hm, Option.isSome_some, Bool.or_true]
  · rw [remoteModule?, hr] at hm
    cases hm

theorem exists_settle (hP : Feasible known P)
    (hv : ∀ r : Run, ∀ id, P r (.visit id .default) → r.Nested known →
      known.length < depth + r.stack.length →
      ∃ m r', visit depth r id .default = (.ok m, r'))
    {ds : List Dependency} {importer : String} (h : P r (.settle importer ds))
    (hn : r.Nested known) (hd : known.length < depth + r.stack.length) :
    ∃ out r', settle (fun r id ↦ visit depth r id .default) importer r ds = (.ok out, r') := by
  induction ds generalizing r with
  | nil => exact ⟨_, _, rfl⟩
  | cons d ds ih =>
    obtain ⟨m, r', hvisit⟩ := hv r d.path (hP.first h) hn hd
    have hy := yields_visit depth r d.path .default
    rw [hvisit] at hy
    have hs := hy.frame.2 fun _ h ↦ Outcome.noConfusion h
    obtain ⟨⟨settled, changed⟩, r'', hrest⟩ := ih (hP.others h hy)
      (hn.after hy fun _ h ↦ Outcome.noConfusion h) (by rwa [hs])
    rw [settle, hvisit]
    dsimp only
    rw [hrest]
    exact ⟨_, _, rfl⟩

/-- A feasible visit ends with a module if the depth allows for all known ids that are not on the
stack. -/
theorem exists_visit (hP : Feasible known P) (depth : Nat) (r : Run) (id : String)
    (h : P r (.visit id .default)) (hn : r.Nested known)
    (hd : known.length < depth + r.stack.length) :
    ∃ m r', visit depth r id .default = (.ok m, r') := by
  induction depth generalizing r id with
  | zero =>
    have hle := hn.length_le
    omega
  | succ depth ih =>
    rw [visit]
    cases hr : r.world.graph.remote.find? id with
    | some m => exact ⟨_, _, rfl⟩
    | none =>
      dsimp only
      by_cases hv : id ∈ r.visited
      · obtain ⟨m, hm⟩ := hP.finds h hr hv
        rw [if_pos (List.contains_iff_mem.2 hv), revisit]
        dsimp only
        rw [hm]
        exact ⟨_, _, rfl⟩
      · rw [if_neg fun hc ↦ hv (List.contains_iff_mem.1 hc)]
        obtain ⟨hk, m, changed, world, hp, hin⟩ := hP.prepares h hr hv
        rw [hp]
        dsimp only
        split
        · exact ⟨_, _, rfl⟩
        · have hid := (Prepares.of_eq hp).id_eq
          have hn' := hn.inside hv hk hid world
          obtain ⟨⟨ds, changed'⟩, inner, hs⟩ := exists_settle hP
            (fun r id h hn hd ↦ ih r id h hn hd) hin hn'
            (show known.length < depth + (m :: r.stack).length by
              rw [List.length_cons]
              omega)
          have hy := yields_settle (fun r id ↦ yields_visit depth r id .default) m.id
            ((r.entered id world).inside m) m.dependencies
          rw [hs] at hy
          rw [show (⟨world, id :: r.visited, m :: r.stack, r.cyclic⟩ : Run) =
            (r.entered id world).inside m from rfl, hs]
          cases changed' with
          | false => exact ⟨_, _, rfl⟩
          | true =>
            obtain ⟨m', hl⟩ := hP.relinks h hr hv hp hy
            dsimp only
            rw [hl]
            exact ⟨_, _, rfl⟩

end Run

theorem Yields.tracked {r r' : Run} {t : Task} {out : Outcome} (h : Yields r t out r')
    (hr : r.Tracked) (hout : ∀ stop, out ≠ .stopped stop) : r'.Tracked := by
  have hstack : ∀ {r r' : Run} {importer : String} {ds ds' : List Dependency} {changed : Bool},
      Yields r (.settle importer ds) (.settled ds' changed) r' → r'.stack = r.stack :=
    fun hb ↦ hb.frame.2 fun _ h ↦ Outcome.noConfusion h
  induction h with
  | deep => exact hr
  | vendored => exact hr
  | again => exact hr
  | lost => exact hr
  | unprepared => exact absurd rfl (hout _)
  | leaf _ _ hp _ => exact (hr.inside hp).finish rfl rfl _
  | dropped => exact absurd rfl (hout _)
  | kept _ _ hp _ hb ih =>
    exact (ih (hr.inside hp) fun _ h ↦ Outcome.noConfusion h).finish (hstack hb) rfl _
  | broken => exact absurd rfl (hout _)
  | relinked _ _ hp _ hb hl ih =>
    exact (ih (hr.inside hp) fun _ h ↦ Outcome.noConfusion h).finish (hstack hb) (relink_id hl).1 _
  | done => exact hr
  | failed => exact absurd rfl (hout _)
  | cut => exact absurd rfl (hout _)
  | next _ _ ih ih' =>
    exact ih' (ih hr fun _ h ↦ Outcome.noConfusion h) fun _ h ↦ Outcome.noConfusion h

theorem tracked_start (w : World) : (Run.start w).Tracked :=
  fun _ hx ↦ by cases hx

theorem exists_compile {w : World} {text id : String} {P : Run → Task → Prop}
    (hP : Feasible w.knownIds P) (he : w.entryId text = .ok id)
    (h : P (Run.start w) (.visit id .default)) : ∃ m r,
      Yields (Run.start w) (.visit id .default) (.found m) r ∧
      w.compile text .default = (.ok m, r.world.persistAliases r.visited) := by
  have hn : (Run.start w).Nested w.knownIds :=
    ⟨.nil, (fun _ h ↦ by cases h), fun _ h ↦ by cases h⟩
  obtain ⟨m, r, hv⟩ := Run.exists_visit hP w.depthBound _ id h hn
    (by rw [World.depthBound]; omega)
  have hy := yields_visit w.depthBound (Run.start w) id .default
  rw [hv] at hy
  refine ⟨m, r, hy, ?_⟩
  rw [World.compile, he]
  dsimp only
  rw [hv]

end SiteCompiler.Graph
