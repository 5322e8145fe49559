import SiteCompiler.Proofs.Graph.Yields

namespace SiteCompiler.Graph

open Relation (ReflTransGen TransGen)

variable {w : World} {r r' : Run}

def World.Accounts (w : World) (importer : String) (d : Dependency) : Prop :=
  ∃ m, w.Has d.path m ∧ (d.hash = m.hash ∨ w.OnCycle importer ∧ w.OnCycle d.path)

namespace Run

/-- What the run has finished is in a world as it is, and what is being visited has its dependencies
there. -/
structure LeadsTo (r : Run) (w : World) : Prop where
  modules : ∀ id ∈ r.visited, (∀ m ∈ r.stack, m.id ≠ id) → ∀ m,
    r.world.graph.modules.find? id = some m → w.graph.modules.find? id = some m
  remote : ∀ id m, r.world.graph.remote.find? id = some m → w.graph.remote.find? id = some m
  stack : ∀ m ∈ r.stack, ∃ m', w.Has m.id m' ∧
    m'.dependencies.map (·.path) = m.dependencies.map (·.path)

def Covers (r : Run) (w : World) (id : String) : Prop :=
  id ∈ r.visited ∨ ∃ m, w.graph.remote.find? id = some m

structure Traversal (r : Run) (w : World) : Prop where
  visited : ∀ m ∈ r.stack, m.id ∈ r.visited
  chain : r.stack.IsChain fun inner outer ↦ w.Imports outer.id inner.id
  cyclic : ∀ id ∈ r.cyclic, w.OnCycle id
  finished : ∀ id ∈ r.visited, (∀ m ∈ r.stack, m.id ≠ id) → ∃ m, r.world.Has id m ∧
    ∀ d ∈ m.dependencies, r.Covers w d.path ∧ w.Accounts id d

theorem Covers.mono {id : String} (h : r.Covers w id) (hv : ∀ id ∈ r.visited, id ∈ r'.visited) :
    r'.Covers w id :=
  h.imp_left (hv id)

section Chains

variable {I : String → String → Prop}

theorem reflTransGen_head {m : Module} {ms : List Module}
    (h : (m :: ms).IsChain fun inner outer ↦ I outer.id inner.id) :
    ∀ m' ∈ m :: ms, ReflTransGen I m'.id m.id := by
  induction ms generalizing m with
  | nil =>
    intro m' hm
    obtain rfl := List.mem_singleton.1 hm
    exact .refl
  | cons next ms ih =>
    rw [List.isChain_cons_cons] at h
    intro m' hm
    rcases List.mem_cons.1 hm with rfl | hm
    · exact .refl
    · exact (ih h.2 m' hm).tail h.1

theorem transGen_of_mem_stack {m m' : Module} {ms : List Module}
    (h : (m :: ms).IsChain fun inner outer ↦ I outer.id inner.id) (hm : m' ∈ m :: ms)
    (hi : I m.id m'.id) : TransGen I m.id m.id ∧ TransGen I m'.id m'.id :=
  ⟨.head' hi (reflTransGen_head h m' hm), .tail' (reflTransGen_head h m' hm) hi⟩

theorem reflTransGen_of_mem_takeWhile {id : String} {ms : List Module}
    (h : ms.IsChain fun inner outer ↦ I outer.id inner.id) (hid : ∃ m ∈ ms, m.id = id) :
    ∀ m ∈ ms.takeWhile (·.id ≠ id), ReflTransGen I id m.id := by
  induction ms with
  | nil => exact fun _ hm ↦ by cases hm
  | cons top ms ih =>
    obtain ⟨m', hm', hid⟩ := hid
    intro m hm
    by_cases htop : top.id = id
    · rw [List.takeWhile_cons_of_neg (by simpa using htop)] at hm
      cases hm
    · rw [List.takeWhile_cons_of_pos (by simpa using htop)] at hm
      rcases List.mem_cons.1 hm with rfl | hm
      · exact hid ▸ reflTransGen_head h m' hm'
      · refine ih h.of_cons ⟨m', ?_, hid⟩ m hm
        exact (List.mem_cons.1 hm').resolve_left fun he ↦ htop (he ▸ hid)

theorem mem_cycleTo {id x : String} {ms : List Module} : x ∈ cycleTo ms id ↔
    (∃ m ∈ ms, m.id = id) ∧ (x = id ∨ ∃ m ∈ ms.takeWhile (·.id ≠ id), m.id = x) := by
  have hany : ms.any (·.id = id) = true ↔ ∃ m ∈ ms, m.id = id := by
    simp only [List.any_eq_true, decide_eq_true_eq]
  rw [cycleTo]
  split
  · next h =>
    rw [List.mem_append, List.mem_map, List.mem_singleton, or_comm]
    exact ⟨fun hx ↦ ⟨hany.1 h, hx⟩, fun hx ↦ hx.2⟩
  · next h => exact ⟨(fun hx ↦ by cases hx), fun hx ↦ absurd (hany.2 hx.1) h⟩

theorem cycleTo_congr {ms ms' : List Module} (h : ms.map (·.id) = ms'.map (·.id)) (id : String) :
    cycleTo ms id = cycleTo ms' id := by
  have hids : ∀ ms : List Module, cycleTo ms id = if (ms.map (·.id)).any (· = id) then
      (ms.map (·.id)).takeWhile (· ≠ id) ++ [id] else [] := fun ms ↦ by
    rw [cycleTo, List.any_map, List.takeWhile_map]
    rfl
  rw [hids, hids, h]

theorem head_mem_cycleTo {id : String} {ms : List Module} {top : Module} (htop : top ∈ ms.head?)
    (h : ∃ m ∈ ms, m.id = id) : top.id ∈ cycleTo ms id := by
  obtain ⟨ms, rfl⟩ := List.head?_eq_some_iff.1 htop
  refine mem_cycleTo.2 ⟨h, ?_⟩
  by_cases htop : top.id = id
  · exact .inl htop
  · refine .inr ⟨top, ?_, rfl⟩
    rw [List.takeWhile_cons_of_pos (by simpa using htop)]
    exact List.mem_cons_self

/-- What is found to be on a cycle with the innermost module leads to the module that is reached
again, and is led to from there. -/
theorem leads_of_mem_cycleTo {id : String} {ms : List Module}
    (h : ms.IsChain fun inner outer ↦ I outer.id inner.id) (hi : ∀ m ∈ ms.head?, I m.id id)
    {x : String} (hx : x ∈ cycleTo ms id) : ReflTransGen I id x ∧ TransGen I x id := by
  obtain ⟨⟨m', hm', hid⟩, hx⟩ := mem_cycleTo.1 hx
  cases ms with
  | nil => cases hm'
  | cons top ms =>
    have hi := hi top rfl
    rcases hx with rfl | ⟨m, hm, rfl⟩
    · exact ⟨.refl, hid ▸ (transGen_of_mem_stack h hm' (hid ▸ hi)).2⟩
    · have hmem : m ∈ top :: ms := (List.takeWhile_sublist _).mem hm
      exact ⟨reflTransGen_of_mem_takeWhile h ⟨m', hm', hid⟩ m hm,
        .tail' (reflTransGen_head h m hmem) hi⟩

theorem transGen_of_mem_cycleTo {id : String} {ms : List Module}
    (h : ms.IsChain fun inner outer ↦ I outer.id inner.id)
    (hi : ∀ m ∈ ms.head?, I m.id id) : ∀ x ∈ cycleTo ms id, TransGen I x x := by
  intro x hx
  obtain ⟨hto, hback⟩ := leads_of_mem_cycleTo h hi hx
  exact hback.trans_left hto

theorem exists_next_of_mem_cycleTo {id : String} {ms : List Module}
    (h : ms.IsChain fun inner outer ↦ I outer.id inner.id) (hi : ∀ m ∈ ms.head?, I m.id id)
    {x : String} (hx : x ∈ cycleTo ms id) : ∃ y ∈ cycleTo ms id, I x y := by
  -- the innermost module imports the one reached again, each other one the module before it
  have hnext : ∀ (last : String) (ms : List Module),
      ms.IsChain (fun inner outer ↦ I outer.id inner.id) → (∀ m ∈ ms.head?, I m.id last) →
      ∀ x ∈ cycleTo ms id, ∃ y, (y = last ∨ y ∈ cycleTo ms id) ∧ I x y := by
    intro last ms
    induction ms generalizing last with
    | nil => exact fun _ _ x hx ↦ by cases hx
    | cons top ms ih =>
      intro h hi x hx
      obtain ⟨hany, hx⟩ := mem_cycleTo.1 hx
      by_cases htop : top.id = id
      · rw [List.takeWhile_cons_of_neg (by simpa using htop)] at hx
        have hx : x = top.id := (hx.resolve_right fun ⟨m, hm, _⟩ ↦ by cases hm).trans htop.symm
        exact ⟨last, .inl rfl, hx ▸ hi top rfl⟩
      · have hrest : ∃ m ∈ ms, m.id = id := by
          obtain ⟨m, hm, hid⟩ := hany
          exact ⟨m, (List.mem_cons.1 hm).resolve_left fun he ↦ htop (he ▸ hid), hid⟩
        have hsub : ∀ y, y ∈ cycleTo ms id → y ∈ cycleTo (top :: ms) id := by
          intro y hy
          refine mem_cycleTo.2 ⟨hany, (mem_cycleTo.1 hy).2.imp_right fun ⟨m, hm, he⟩ ↦ ⟨m, ?_, he⟩⟩
          rw [List.takeWhile_cons_of_pos (by simpa using htop)]
          exact List.mem_cons_of_mem top hm
        have hself : top.id ∈ cycleTo (top :: ms) id := head_mem_cycleTo rfl hany
        have hin : x = top.id ∨ x ∈ cycleTo ms id := by
          rw [List.takeWhile_cons_of_pos (by simpa using htop)] at hx
          rcases hx with rfl | ⟨m, hm, rfl⟩
          · exact .inr (mem_cycleTo.2 ⟨hrest, .inl rfl⟩)
          · rcases List.mem_cons.1 hm with rfl | hm
            · exact .inl rfl
            · exact .inr (mem_cycleTo.2 ⟨hrest, .inr ⟨m, hm, rfl⟩⟩)
        rcases hin with rfl | hx
        · exact ⟨last, .inl rfl, hi top rfl⟩
        · obtain ⟨y, hy, hxy⟩ := ih top.id h.of_cons (List.isChain_cons.1 h).1 x hx
          refine ⟨y, .inr ?_, hxy⟩
          rcases hy with rfl | hy
          · exact hself
          · exact hsub y hy
  obtain ⟨y, hy, hxy⟩ := hnext id ms h hi x hx
  refine ⟨y, ?_, hxy⟩
  rcases hy with rfl | hy
  · exact mem_cycleTo.2 ⟨(mem_cycleTo.1 hx).1, .inl rfl⟩
  · exact hy

end Chains

namespace LeadsTo

variable {inner : Run} {m m' : Module} {changed : Bool}

theorem has (h : r.LeadsTo w) {id : String} (hv : id ∈ r.visited) (hs : ∀ m ∈ r.stack, m.id ≠ id)
    (hm : r.world.Has id m) : w.Has id m :=
  hm.imp (h.modules id hv hs m) (h.remote id m)

theorem before (h : r'.LeadsTo w) (hf : Frame r r') (hs : r'.stack = r.stack) : r.LeadsTo w where
  modules := fun id hv hne m hm ↦
    h.modules id (hf.visited id hv) (hs ▸ hne) m ((hf.modules id (.inl hv)).trans hm)
  remote := fun id m hm ↦ h.remote id m (hf.vendored id m hm)
  stack := hs ▸ h.stack

/-- Before a module is entered into the graph, its dependencies lead to the same world. -/
theorem before_finished (h : (inner.finished r.stack m' changed).LeadsTo w)
    (hs : inner.stack = m :: r.stack) (hid : m'.id = m.id)
    (hd : m'.dependencies.map (·.path) = m.dependencies.map (·.path))
    (hv : m.id ∈ inner.visited) (hne : ∀ x ∈ r.stack, x.id ≠ m.id)
    (hr : inner.world.graph.remote.find? m.id = none) : inner.LeadsTo w := by
  refine ⟨fun id hv' hne' x hx ↦ ?_, fun id x hx ↦ ?_, fun x hx ↦ ?_⟩
  · rw [hs] at hne'
    have hne : m'.id ≠ id := hid ▸ hne' m List.mem_cons_self
    exact h.modules id hv' (fun y hy ↦ hne' y (List.mem_cons_of_mem m hy)) x
      ((inner.world.find?_finish_of_ne changed hne).1.trans hx)
  · have hne : m'.id ≠ id := by
      rintro rfl
      rw [hid, hr] at hx
      cases hx
    exact h.remote id x ((inner.world.find?_finish_of_ne changed hne).2.trans hx)
  · rw [hs] at hx
    rcases List.mem_cons.1 hx with rfl | hx
    · have hself : (inner.finished r.stack m' changed).world.Has x.id m' :=
        hid ▸ inner.world.has_finish_self m' changed
      exact ⟨m', h.has hv hne hself, hd⟩
    · exact h.stack x hx

end LeadsTo

namespace Traversal

variable {inner : Run} {id : String} {o : Options} {m m' : Module} {changed : Bool} {world : World}

theorem not_mem_stack (h : r.Traversal w) (hv : id ∉ r.visited) : ∀ x ∈ r.stack, x.id ≠ id :=
  fun x hx he ↦ hv (he ▸ h.visited x hx)

theorem inside (h : r.Traversal w) (hp : r.world.prepare id o = (.ok (m, changed), world))
    (hi : ∀ top ∈ r.stack.head?, w.Imports top.id id) :
    ((r.entered id world).inside m).Traversal w := by
  have hid := (Prepares.of_eq hp).id_eq
  refine ⟨fun x hx ↦ ?_, ?_, h.cyclic, fun x hx hne ↦ ?_⟩
  · rcases List.mem_cons.1 hx with rfl | hx
    · exact hid ▸ List.mem_cons_self
    · exact List.mem_cons_of_mem id (h.visited x hx)
  · exact List.isChain_cons.2 ⟨fun top htop ↦ hid ▸ hi top htop, h.chain⟩
  · have hx : x ∈ r.visited :=
      (List.mem_cons.1 hx).resolve_left fun he ↦ hne m List.mem_cons_self (hid.trans he.symm)
    obtain ⟨m', hm', hd⟩ := h.finished x hx fun y hy ↦ hne y (List.mem_cons_of_mem m hy)
    exact ⟨m', (World.prepare_eq hp).1.has.2 hm',
      fun d hd' ↦ ⟨(hd d hd').1.mono fun _ ↦ List.mem_cons_of_mem id, (hd d hd').2⟩⟩

theorem finish (h : inner.Traversal w) (hs : inner.stack = m :: r.stack) (hid : m'.id = m.id)
    (hd : ∀ d ∈ m'.dependencies, inner.Covers w d.path ∧ w.Accounts m'.id d) (changed : Bool) :
    (inner.finished r.stack m' changed).Traversal w := by
  have hv := h.visited
  have hc := h.chain
  rw [hs] at hv hc
  refine ⟨fun x hx ↦ hv x (List.mem_cons_of_mem m hx), hc.of_cons, h.cyclic, fun x hx hne ↦ ?_⟩
  by_cases hm : m'.id = x
  · subst hm
    exact ⟨m', inner.world.has_finish_self m' changed, hd⟩
  · obtain ⟨m₀, hm₀, hd₀⟩ := h.finished x hx fun y hy ↦ by
      rw [hs] at hy
      rcases List.mem_cons.1 hy with rfl | hy
      · exact fun he ↦ hm (hid.trans he)
      · exact hne y hy
    exact ⟨m₀, (inner.world.has_finish_of_ne changed hm m₀).2 hm₀, hd₀⟩

end Traversal
end Run

def Task.ids : Task → List String
  | .visit id _ => [id]
  | .settle _ ds => ds.map (·.path)

/-- A task belongs to a run if the innermost module imports what it is about. -/
def Task.Follows (r : Run) (w : World) : Task → Prop
  | .visit id o => o.alone = false ∧ ∀ m ∈ r.stack.head?, w.Imports m.id id
  | .settle importer ds =>
    (∃ m ∈ r.stack.head?, m.id = importer) ∧ ∀ d ∈ ds, w.Imports importer d.path

def Outcome.Known (r r' : Run) (w : World) : Task → Outcome → Prop
  | .visit id _, .found m => r'.Covers w id ∧ (m ∈ r.stack ∧ m.id = id ∨ w.Has id m)
  | .settle importer _, .settled ds' _ =>
    ∀ d ∈ ds', r'.Covers w d.path ∧ w.Accounts importer d
  | _, _ => True

/-- A settled dependency has the hash of what it leads to, or both ends are known to be on cycles. -/
theorem Run.settledAs_cases (r : Run) (importer : String) (d : Dependency) (m : Module) :
    (r.settledAs importer d m).hash = m.hash ∨ importer ∈ r.cyclic ∧ d.path ∈ r.cyclic := by
  rw [Run.settledAs]
  split
  · exact .inl rfl
  · next hr =>
    rw [Run.renews, Bool.and_eq_true, not_and_or, decide_eq_true_eq, not_not] at hr
    refine hr.imp Eq.symm fun hr ↦ ?_
    rw [Bool.not_eq_true, Bool.not_eq_false', Run.keepsName, Bool.and_eq_true, Bool.and_eq_true] at hr
    exact ⟨List.contains_iff_mem.1 hr.1.2, List.contains_iff_mem.1 hr.1.1⟩

theorem Run.Traversal.accounts (h : r'.Traversal w) {importer : String} {d : Dependency}
    {m : Module} (hm : w.Has d.path m) : w.Accounts importer (r'.settledAs importer d m) := by
  rw [World.Accounts, Run.settledAs_path]
  exact ⟨m, hm, (r'.settledAs_cases importer d m).imp_right
    (And.imp (h.cyclic importer) (h.cyclic d.path))⟩

/-- What the dependencies of a module are visited for, if the run leads to a world once the module is
entered into the graph. -/
theorem Run.Traversal.below {inner : Run} {id : String} {o : Options} {m m' : Module}
    {changed changed' : Bool} {world : World} {out : Outcome} (h : r.Traversal w)
    (hm : r.world.graph.remote.find? id = none) (hv : id ∉ r.visited)
    (hp : r.world.prepare id o = (.ok (m, changed), world))
    (hb : Yields ((r.entered id world).inside m) (.settle m.id m.dependencies) out inner)
    (hout : ∀ stop, out ≠ .stopped stop) (hid : m'.id = m.id)
    (hd : m'.dependencies.map (·.path) = m.dependencies.map (·.path))
    (hw : (inner.finished r.stack m' changed').LeadsTo w) :
    inner.LeadsTo w ∧ inner.stack = m :: r.stack ∧
      (Task.settle m.id m.dependencies).Follows ((r.entered id world).inside m) w ∧
      id ∈ inner.visited ∧ w.Has id m' := by
  obtain ⟨hf, hs⟩ := hb.frame
  have hs := hs hout
  have hname := (Prepares.of_eq hp).id_eq
  have hin : id ∈ ((r.entered id world).inside m).visited := List.mem_cons_self
  have hne : ∀ x ∈ r.stack, x.id ≠ m.id := hname ▸ h.not_mem_stack hv
  have hrem : inner.world.graph.remote.find? m.id = none := by
    rw [hname, hf.remote id (.inl hin)]
    change world.graph.remote.find? id = none
    rw [(World.prepare_eq hp).1.remote]
    exact hm
  have hto := hw.before_finished hs hid hd (hname ▸ hf.visited id hin) hne hrem
  refine ⟨hto, hs, ⟨⟨m, rfl, rfl⟩, fun d hd ↦ ?_⟩, hf.visited id hin, ?_⟩
  · obtain ⟨m₀, hm₀, hpaths⟩ := hto.stack m (hs ▸ List.mem_cons_self)
    have hmem := List.mem_map_of_mem (f := Dependency.path) hd
    rw [← hpaths] at hmem
    obtain ⟨d₀, hd₀, he⟩ := List.mem_map.1 hmem
    exact ⟨m₀, hm₀, d₀, hd₀, he⟩
  · refine hw.has (hf.visited id hin) (h.not_mem_stack hv) ?_
    exact hname ▸ hid ▸ inner.world.has_finish_self m' changed'

theorem Task.Follows.next {r'' : Run} {importer : String} {d : Dependency}
    {rest settled : List Dependency} {m : Module} {changed : Bool}
    (h : (Task.settle importer (d :: rest)).Follows r w) (hw : r''.LeadsTo w)
    (hf : Yields r (.visit d.path .default) (.found m) r')
    (ho : Yields r' (.settle importer rest) (.settled settled changed) r'') :
    (Task.visit d.path .default).Follows r w ∧ r'.LeadsTo w ∧
      (Task.settle importer rest).Follows r' w := by
  obtain ⟨⟨top, htop, rfl⟩, hd⟩ := h
  have hs := hf.frame.2 fun _ h ↦ Outcome.noConfusion h
  refine ⟨⟨rfl, fun x hx ↦ ?_⟩,
    hw.before ho.frame.1 (ho.frame.2 fun _ h ↦ Outcome.noConfusion h),
    ⟨top, hs ▸ htop, rfl⟩, fun d' hd' ↦ hd d' (List.mem_cons_of_mem d hd')⟩
  rw [Option.mem_unique hx htop]
  exact hd d List.mem_cons_self

theorem Task.Follows.leads {id x : String} {m : Module} {world : World}
    (h : (Task.settle m.id m.dependencies).Follows ((r.entered id world).inside m) w) (hid : m.id = id)
    (hx : ∃ a ∈ (Task.settle m.id m.dependencies).ids, w.Reaches a x) :
    ∃ a ∈ [id], w.Reaches a x := by
  obtain ⟨a, ha, hx⟩ := hx
  obtain ⟨d, hd, rfl⟩ := List.mem_map.1 ha
  exact ⟨_, List.mem_cons_self, .head (hid ▸ h.2 d hd) hx⟩

theorem Task.Follows.reaches {id x : String} {m : Module} {world : World}
    (h : (Task.settle m.id m.dependencies).Follows ((r.entered id world).inside m) w) (hid : m.id = id)
    (hx : x ∈ ((r.entered id world).inside m).visited ∨
      ∃ a ∈ (Task.settle m.id m.dependencies).ids, w.Reaches a x) :
    x ∈ r.visited ∨ ∃ a ∈ [id], w.Reaches a x := by
  rcases hx with hx | hx
  · rcases List.mem_cons.1 hx with rfl | hx
    · exact .inr ⟨_, List.mem_cons_self, .refl⟩
    · exact .inl hx
  · exact .inr (h.leads hid hx)

/-- A part of a run to a world that is not stopped accounts for the dependencies of all that it
finishes, and it visits nothing but what it leads to. -/
theorem Yields.traverses {t : Task} {out : Outcome} (h : Yields r t out r') (hw : r'.LeadsTo w)
    (hr : r.Traversal w) (ht : t.Follows r w) (hout : ∀ stop, out ≠ .stopped stop) :
    r'.Traversal w ∧ out.Known r r' w t ∧
      ∀ x ∈ r'.visited, x ∈ r.visited ∨ ∃ a ∈ t.ids, w.Reaches a x := by
  induction h with
  | deep => exact absurd rfl (hout _)
  | vendored hm =>
    exact ⟨hr, ⟨.inr ⟨_, hw.remote _ _ hm⟩, .inr (.inr (hw.remote _ _ hm))⟩, fun _ ↦ .inl⟩
  | @again r id o m hm hv hk =>
    have hc : ∀ x ∈ (r.noted id).cyclic, w.OnCycle x := fun x hx ↦
      (List.mem_append.1 hx).elim (Run.transGen_of_mem_cycleTo hr.chain ht.2 x) (hr.cyclic x)
    refine ⟨⟨hr.visited, hr.chain, hc, hr.finished⟩, ⟨.inl hv, ?_⟩, fun _ ↦ .inl⟩
    rcases Option.or_eq_some_iff.1 hk with hk | ⟨hn, hk⟩
    · have hid := List.find?_some hk
      exact .inl ⟨List.mem_of_find?_eq_some hk, of_decide_eq_true hid⟩
    · have hne : ∀ x ∈ r.stack, x.id ≠ id := fun x hx he ↦
        List.find?_eq_none.1 hn x hx (decide_eq_true he)
      exact .inr (.inl (hw.modules id hv hne m hk))
  | lost => exact absurd rfl (hout _)
  | unprepared => exact absurd rfl (hout _)
  | @leaf r id o m changed world hm hv hp ha =>
    have hid := (Prepares.of_eq hp).id_eq
    have hd : m.dependencies = [] := ha.resolve_left (by rw [ht.1]; exact Bool.false_ne_true)
    have hin := hr.inside hp ht.2
    refine ⟨hin.finish rfl rfl (by rw [hd]; exact fun _ h ↦ by cases h) changed,
      ⟨.inl List.mem_cons_self, .inr (hw.has List.mem_cons_self (hr.not_mem_stack hv) ?_)⟩,
      fun x hx ↦ ?_⟩
    · exact hid ▸ world.has_finish_self m changed
    · rcases List.mem_cons.1 hx with rfl | hx
      · exact .inr ⟨_, List.mem_cons_self, .refl⟩
      · exact .inl hx
  | dropped => exact absurd rfl (hout _)
  | @kept r inner id o m changed world ds hm hv hp ha hb ih =>
    have hout : ∀ stop, Outcome.settled ds false ≠ .stopped stop := fun _ h ↦ Outcome.noConfusion h
    obtain ⟨hto, hs, hfollows, hin, hhas⟩ := hr.below hm hv hp hb hout rfl rfl hw
    obtain ⟨hinner, hd, hall⟩ := ih hto (hr.inside hp ht.2) hfollows hout
    rw [hb.settled_eq] at hd
    exact ⟨hinner.finish hs rfl hd changed, ⟨.inl hin, .inr hhas⟩, fun x hx ↦
      hfollows.reaches (Prepares.of_eq hp).id_eq (hall x hx)⟩
  | broken => exact absurd rfl (hout _)
  | @relinked r inner id o m m' changed world ds hm hv hp ha hb hl ih =>
    have hout : ∀ stop, Outcome.settled ds true ≠ .stopped stop := fun _ h ↦ Outcome.noConfusion h
    have hid := (relink_id hl).1
    have hdeps := relink_dependencies hl
    obtain ⟨hto, hs, hfollows, hin, hhas⟩ :=
      hr.below hm hv hp hb hout hid (by rw [hdeps, hb.paths]) hw
    obtain ⟨hinner, hd, hall⟩ := ih hto (hr.inside hp ht.2) hfollows hout
    refine ⟨hinner.finish hs hid ?_ true, ⟨.inl hin, .inr hhas⟩, fun x hx ↦
      hfollows.reaches (Prepares.of_eq hp).id_eq (hall x hx)⟩
    rw [hdeps, hid]
    exact hd
  | done => exact ⟨hr, (fun _ h ↦ by cases h), fun _ ↦ .inl⟩
  | failed => exact absurd rfl (hout _)
  | cut => exact absurd rfl (hout _)
  | @next r r' r'' importer d rest settled m changed hf ho ih ih' =>
    obtain ⟨hvisit, hto, hothers⟩ := ht.next hw hf ho
    have hs := hf.frame.2 fun _ h ↦ Outcome.noConfusion h
    obtain ⟨top, htop, rfl⟩ := ht.1
    have himports : w.Imports top.id d.path := ht.2 d List.mem_cons_self
    obtain ⟨hr', ⟨hcovers, hfound⟩, hfirst⟩ := ih hto hr hvisit fun _ h ↦ Outcome.noConfusion h
    obtain ⟨hr'', hd, hrest⟩ := ih' hw hr' hothers fun _ h ↦ Outcome.noConfusion h
    have hleads : ∀ x ∈ r''.visited, x ∈ r.visited ∨
        ∃ a ∈ (Task.settle top.id (d :: rest)).ids, w.Reaches a x := by
      intro x hx
      rcases hrest x hx with hx | ⟨a, ha, hx⟩
      · refine (hfirst x hx).imp_right fun ⟨a, ha, hx⟩ ↦ ⟨a, ?_, hx⟩
        exact List.mem_singleton.1 ha ▸ List.mem_cons_self
      · exact .inr ⟨a, List.mem_cons_of_mem _ ha, hx⟩
    refine ⟨hr'', fun d' hd' ↦ ?_, hleads⟩
    rcases List.mem_cons.1 hd' with rfl | hd'
    · rw [Run.settledAs_path]
      refine ⟨hcovers.mono ho.frame.1.visited, ?_⟩
      rcases hfound with ⟨hmem, hid⟩ | hhas
      · -- what is on the stack is imported from its top
        obtain ⟨ms, hms⟩ := List.head?_eq_some_iff.1 htop
        have hc := hr.chain
        rw [hms] at hc hmem
        obtain ⟨m', hm', -⟩ := hto.stack m (by rw [hs, hms]; exact hmem)
        have hcycle := Run.transGen_of_mem_stack hc hmem (hid ▸ himports)
        refine ⟨m', ?_, .inr ?_⟩
        · rw [Run.settledAs_path, ← hid]
          exact hm'
        · rw [Run.settledAs_path, ← hid]
          exact hcycle
      · exact hr'.accounts hhas
    · exact hd d' hd'

end SiteCompiler.Graph
