import SiteCompiler.Proofs.Graph.Coherence
import SiteCompiler.Proofs.Graph.Traversal

namespace SiteCompiler.Graph

open Digest (contentHash hashPrefix)

variable {F : Prop} {T : String → Prop} {w w' : World} {r : Run} {m m' m₀ : Module} {id text : String}

theorem Sound.has_unique (h : Sound F T w) (hm : w.Has id m) (hm' : w.Has id m') : m = m' := by
  rcases hm with hm | hm <;> rcases hm' with hm' | hm'
  · exact Option.some_inj.1 (hm.symm.trans hm')
  · exact absurd (h.remote id m' hm').2.2 (h.modules id m hm).2.2
  · exact absurd (h.remote id m hm).2.2 (h.modules id m' hm').2.2
  · exact Option.some_inj.1 (hm.symm.trans hm')

theorem leadsTo_of_stack_eq_nil (hs : r.stack = []) (h : World.SameGraph r.world w) :
    r.LeadsTo w where
  modules := fun _ _ _ m hm ↦ by rw [h.modules]; exact hm
  remote := fun _ m hm ↦ by rw [h.remote]; exact hm
  stack := fun m hm ↦ by rw [hs] at hm; cases hm

theorem traversal_start (w v : World) : (Run.start w).Traversal v :=
  ⟨(fun _ h ↦ by cases h), .nil, (fun _ h ↦ by cases h), fun _ h ↦ by cases h⟩

theorem traversal_of_yields (hy : Yields (Run.start w) (.visit id .default) (.found m) r) :
    m.id = id ∧ r.stack = [] ∧ r.Traversal (r.world.persistAliases r.visited) ∧
      r.Covers (r.world.persistAliases r.visited) id ∧
      (r.world.persistAliases r.visited).Has id m := by
  have hs : r.stack = [] := hy.frame.2 fun _ h ↦ Outcome.noConfusion h
  have hto := leadsTo_of_stack_eq_nil hs (World.sameGraph_persistAliases r.world r.visited)
  obtain ⟨ht, ⟨hcovers, hhas⟩, -⟩ := hy.traverses hto (traversal_start w _)
    ⟨rfl, fun _ h ↦ by cases h⟩ fun _ h ↦ Outcome.noConfusion h
  have hhas := hhas.resolve_left fun h ↦ by cases h.1
  exact ⟨hhas.id_eq, hs, ht, hcovers, hhas⟩

theorem reaches_of_mem_visited (hy : Yields (Run.start w) (.visit id .default) (.found m) r) :
    ∀ x ∈ r.visited, (r.world.persistAliases r.visited).Reaches id x := by
  have hs : r.stack = [] := hy.frame.2 fun _ h ↦ Outcome.noConfusion h
  have hto := leadsTo_of_stack_eq_nil hs (World.sameGraph_persistAliases r.world r.visited)
  obtain ⟨-, -, hleads⟩ := hy.traverses hto (traversal_start w _) ⟨rfl, fun _ h ↦ by cases h⟩
    fun _ h ↦ Outcome.noConfusion h
  intro x hx
  rcases hleads x hx with hx | ⟨a, ha, hx⟩
  · cases hx
  · rwa [List.mem_singleton.1 ha] at hx

theorem traversal_of_compile (h : w.compile text .default = (.ok m₀, w')) : ∃ r : Run,
    Yields (Run.start w) (.visit m₀.id .default) (.found m₀) r ∧ r.stack = [] ∧
    w.entryId text = .ok m₀.id ∧ w' = r.world.persistAliases r.visited ∧ r.Traversal w' ∧
    r.Covers w' m₀.id ∧ w'.Has m₀.id m₀ := by
  rcases compile_cases w text .default with
    ⟨cause, -, hc⟩ | ⟨id, r, he, ⟨stop, hy, hc⟩ | ⟨m, hy, hc⟩⟩
  · rw [hc] at h
    cases h
  · rw [hc] at h
    cases (Prod.mk.inj h).1
  · rw [hc] at h
    obtain ⟨hm, rfl⟩ := Prod.mk.inj h
    obtain rfl := Except.ok.inj hm
    obtain ⟨rfl, hs, ht, hcovers, hhas⟩ := traversal_of_yields hy
    exact ⟨r, hy, hs, he, rfl, ht, hcovers, hhas⟩

theorem Run.Traversal.visited_of_reaches (h : r.Traversal w) (hw : World.SameGraph r.world w)
    (hs : r.stack = []) (hsound : Graph.Sound F T w) {a b : String} (ha : r.Covers w a)
    (hr : w.Reaches a b) : b ∈ r.visited ∨ ModuleId.isRemote b := by
  have hremote : ∀ {x}, r.Covers w x → x ∈ r.visited ∨ ModuleId.isRemote x := fun hx ↦
    hx.imp_right fun ⟨m, hm⟩ ↦ (hsound.remote _ m hm).2.2
  induction hr with
  | refl => exact hremote ha
  | @tail b c _ hi ih =>
    obtain ⟨m, hm, d, hd, rfl⟩ := hi
    rcases ih with hv | hb
    · obtain ⟨m', hm', hcovers⟩ := h.finished b hv (by rw [hs]; exact fun _ h ↦ by cases h)
      rw [hsound.has_unique hm (hw.has.2 hm')] at hd
      exact hremote (hcovers d hd).1
    · exact .inr (((hsound.known hm).dependencies d hd).2.2 (hm.id_eq ▸ hb))

/-- After a call that ends with a module, every local module that is reached from there has the
current hashes of its dependencies, except for a dependency between two modules that both lie on
cycles. If texts are told apart by their hashes, the slots of its code hold them too, and those of no
other version of the module with the same hash hold anything else. -/
theorem current_of_compile {ws : List World} (h : History (fun _ _ ↦ True) (w :: ws))
    (hok : w.compile text .default = (.ok m₀, w')) (hreach : w'.Reaches m₀.id id)
    (hm : w'.graph.module? id = some m) {d : Dependency} (hd : d ∈ m.dependencies)
    (hcycle : ¬(w'.OnCycle id ∧ w'.OnCycle d.path)) :
    ∃ target, w'.Has d.path target ∧ d.hash = target.hash ∧ (NoCollision (w' :: w :: ws) →
      ∀ slot ∈ m.slots, m.dependencies[slot.dependency.toNat]? = some d →
        HashSlot.Holds m.code.toList slot.offset.toNat (hashPrefix target.hash).toList ∧
        ∀ v ∈ w' :: w :: ws, ∀ m', v.Has id m' → m'.hash = m.hash →
          HashSlot.Holds m'.code.toList slot.offset.toNat (hashPrefix target.hash).toList) := by
  have hnext : History (fun _ _ ↦ True) (w' :: w :: ws) := by
    have hstep := h.step (e := .compile text .default) (w.admits_compile text .default) trivial
    rwa [World.react_compile, hok] at hstep
  have hall := sound_heldIn hnext
  have hsound := hall w' List.mem_cons_self
  obtain ⟨r, -, hs, -, hw', ht, hcovers, -⟩ := traversal_of_compile hok
  have hsame : World.SameGraph r.world w' := hw' ▸ World.sameGraph_persistAliases r.world r.visited
  have hv := (ht.visited_of_reaches hsame hs hsound hcovers hreach).resolve_right
    (hsound.modules id m hm).2.2
  obtain ⟨m', hm', haccounts⟩ := ht.finished id hv (by rw [hs]; exact fun _ h ↦ by cases h)
  obtain rfl := hsound.has_unique (.inl hm) (hsame.has.2 hm')
  obtain ⟨target, htarget, hhash⟩ := (haccounts d hd).2
  have hhash := hhash.resolve_right hcycle
  refine ⟨target, htarget, hhash, fun hc ↦ ?_⟩
  have hheld : ∀ slot ∈ m.slots, m.dependencies[slot.dependency.toNat]? = some d →
      HashSlot.Holds m.code.toList slot.offset.toNat (hashPrefix target.hash).toList := by
    intro slot hslot hdep
    obtain ⟨hash, hget, hfilled⟩ := ((hsound.known (.inl hm)).linked hc).filled slot hslot
    rw [List.getElem?_map, hdep, Option.map_some, Option.some_inj] at hget
    have hne : target.hash ≠ "" := by
      rw [(hsound.known htarget).hash]
      exact Digest.contentHash_ne_empty _
    rwa [← hget, hhash, HashSlot.filling, if_neg hne] at hfilled
  refine fun slot hslot hdep ↦ ⟨hheld slot hslot hdep, fun v hv m' hm' he ↦ ?_⟩
  have hcode : m'.code = m.code := by
    refine hc v hv w' List.mem_cons_self _ _ ⟨id, m', hm', rfl⟩ ⟨id, m, .inl hm, rfl⟩ ?_
    rw [← ((hall v hv).known hm').hash, ← (hsound.known (.inl hm)).hash, he]
  rw [hcode]
  exact hheld slot hslot hdep

theorem imports_pair {a b code code' hash : String} {x y : String}
    (h : contents w.graph = [(a, code, [⟨b, hash⟩]), (b, code', [])]) (hi : w.Imports x y) :
    x = a ∧ y = b := by
  obtain ⟨m, hm, d, hd, rfl⟩ := hi
  have hmem := mem_contents hm
  rw [h] at hmem
  rcases List.mem_cons.1 hmem with he | hmem
  · obtain ⟨ha, he⟩ := Prod.mk.inj he
    rw [(Prod.mk.inj he).2, List.mem_singleton] at hd
    exact ⟨ha, hd ▸ rfl⟩
  · rw [(Prod.mk.inj (Prod.mk.inj (List.mem_singleton.1 hmem)).2).2] at hd
    cases hd

theorem current_compile_pairWorld : ∃ m₀ w' m d target,
    pairWorld.compile "a.js" .default = (.ok m₀, w') ∧ w'.graph.module? "/a.js" = some m ∧
      d ∈ m.dependencies ∧ ¬(w'.OnCycle "/a.js" ∧ w'.OnCycle d.path) ∧
      NoCollision [w', pairWorld] ∧ w'.Has d.path target ∧ d.hash = target.hash := by
  obtain ⟨m₀, w', hok, hid, hpair⟩ := exists_compile_pairWorld
  have ha : "/a.js" ∈ (contents w'.graph).map Prod.fst := by
    rw [hpair]
    exact List.mem_cons_self
  obtain ⟨m, hm⟩ := exists_of_mem_contents ha
  have hdeps : m.dependencies = [⟨"/b.js", "da39a3ee5e6b4b0d3255bfef95601890afd80709"⟩] := by
    have hmem := mem_contents hm
    rw [hpair, pair] at hmem
    rcases List.mem_cons.1 hmem with he | hmem
    · exact (Prod.mk.inj (Prod.mk.inj he).2).2
    · exact absurd (Prod.mk.inj (List.mem_singleton.1 hmem)).1 (by decide)
  have hcycle : ¬(w'.OnCycle "/a.js" ∧ w'.OnCycle "/b.js") := by
    rintro ⟨-, hb⟩
    obtain ⟨c, hi, -⟩ := Relation.TransGen.head'_iff.1 hb
    exact absurd (imports_pair hpair hi).1 (by decide)
  have hlocal : w'.graph.module? "/a.js" = some m := by
    rcases hm with hm | hm
    · exact hm
    · have hh : History (fun _ _ ↦ True) [pairWorld.react (.compile "a.js" .default), pairWorld] :=
        .step (.start fresh_pairWorld) (pairWorld.admits_compile "a.js" .default) trivial
      rw [World.react_compile, hok] at hh
      exact absurd ((sound_heldIn hh w' List.mem_cons_self).remote _ m hm).2.2 (by decide)
  obtain ⟨target, htarget, hhash, -⟩ := current_of_compile (.start fresh_pairWorld) hok
    (hid ▸ .refl) hlocal (by rw [hdeps]; exact List.mem_cons_self) hcycle
  exact ⟨m₀, w', m, _, target, hok, hlocal, by rw [hdeps]; exact List.mem_cons_self, hcycle,
    noCollision_pairWorld hpair, htarget, hhash⟩

end SiteCompiler.Graph
