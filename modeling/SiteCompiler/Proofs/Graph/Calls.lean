import SiteCompiler.Proofs.Graph.Progress
import SiteCompiler.Proofs.Graph.Sources

namespace SiteCompiler.Graph

open Disk (Through)

structure Call where
  depth : Nat
  run : Run
  id : String
  options : Options

namespace Call

def result (c : Call) : Except Stop Module × Run :=
  Run.visit c.depth c.run c.id c.options

def enters (c : Call) : Bool :=
  c.depth ≠ 0 && (c.run.world.graph.remote.find? c.id).isNone && !c.run.visited.contains c.id

def inTurn (depth : Nat) : Run → List Dependency → List Call
  | _, [] => []
  | r, d :: rest =>
    ⟨depth, r, d.path, .default⟩ ::
      match Run.visit depth r d.path .default with
      | (.error _, _) => []
      | (.ok _, r) => inTurn depth r rest

def made (c : Call) : List Call :=
  if c.enters && !c.options.alone then
    match c.run.world.prepare c.id c.options with
    | (.error _, _) => []
    | (.ok (m, _), world) =>
      inTurn (c.depth - 1) ((c.run.entered c.id world).inside m) m.dependencies
  else []

def within : Nat → Call → List Call
  | 0, c => [c]
  | n + 1, c => c :: c.made.flatMap (within n)

def calls (c : Call) : List Call :=
  c.within c.depth

/-- The modules that are visited for the first time, in their order. -/
def entered (cs : List Call) : List String :=
  (cs.filter (·.enters)).map (·.id)

/-- What a visit is about when it makes another one: the module is prepared, and the dependencies
before the one that is visited next are settled. -/
inductive Makes (c : Call) : Call → Prop
  | mk {depth : Nat} {m : Module} {changed : Bool} {world : World} {r : Run} {d : Dependency}
      {before after : List Dependency} {settled : List Dependency × Bool}
      (deep : c.depth = depth + 1) (remote : c.run.world.graph.remote.find? c.id = none)
      (visited : c.id ∉ c.run.visited)
      (prepared : c.run.world.prepare c.id c.options = (.ok (m, changed), world))
      (whole : c.options.alone = false) (dependencies : m.dependencies = before ++ d :: after)
      (earlier : Run.settle (fun r id ↦ Run.visit depth r id .default) m.id
        ((c.run.entered c.id world).inside m) before = (.ok settled, r)) :
      Makes c ⟨depth, r, d.path, .default⟩

section Settling

variable {visit : Run → String → Except Stop Module × Run} {importer : String} {r r' : Run}
  {before : List Dependency} {settled : List Dependency × Bool}

/-- What is left of the dependencies is settled where the first ones have been settled. -/
theorem settle_append (h : Run.settle visit importer r before = (.ok settled, r'))
    (rest : List Dependency) : Run.settle visit importer r (before ++ rest) =
      ((Run.settle visit importer r' rest).1.map fun out ↦
        (settled.1 ++ out.1, settled.2 || out.2), (Run.settle visit importer r' rest).2) := by
  induction before generalizing r settled with
  | nil =>
    obtain ⟨he, rfl⟩ := Prod.mk.inj h
    obtain rfl := Except.ok.inj he
    rw [List.nil_append]
    rcases Run.settle visit importer r rest with ⟨stop | out, r''⟩ <;> rfl
  | cons d before ih =>
    rcases hv : visit r d.path with ⟨stop | m, r₁⟩
    · rw [Run.settle_cons_error hv] at h
      cases (Prod.mk.inj h).1
    · rw [Run.settle_cons hv] at h
      rcases hs : Run.settle visit importer r₁ before with ⟨stop | out, r₂⟩
      · rw [hs] at h
        cases (Prod.mk.inj h).1
      · rw [hs] at h
        obtain ⟨he, rfl⟩ := Prod.mk.inj h
        obtain rfl := Except.ok.inj he
        rw [List.cons_append, Run.settle_cons hv, ih hs]
        rcases Run.settle visit importer r₂ rest with ⟨stop | out', r''⟩
        · rfl
        · simp [Except.map, Bool.or_assoc]

end Settling

section Making

variable {c c' : Call} {r : Run} {id : String} {o : Options} {m : Module} {changed : Bool}
  {world : World} {depth : Nat}

theorem enters_iff : c.enters ↔
    c.depth ≠ 0 ∧ c.run.world.graph.remote.find? c.id = none ∧ c.id ∉ c.run.visited := by
  rw [enters, Bool.and_eq_true, Bool.and_eq_true, decide_eq_true_eq, Option.isNone_iff_eq_none,
    Bool.not_eq_true', ← Bool.not_eq_true, List.contains_iff_mem, and_assoc]

theorem mem_inTurn {ds : List Dependency} (importer : String) (h : c' ∈ inTurn depth r ds) :
    ∃ before d after settled r', ds = before ++ d :: after ∧ c' = ⟨depth, r', d.path, .default⟩ ∧
      Run.settle (fun r id ↦ Run.visit depth r id .default) importer r before =
        (.ok settled, r') := by
  induction ds generalizing r with
  | nil => cases h
  | cons d ds ih =>
    rcases List.mem_cons.1 h with rfl | h
    · exact ⟨[], d, ds, _, r, rfl, rfl, rfl⟩
    · rcases hv : Run.visit depth r d.path .default with ⟨stop | m, r₁⟩
      · rw [hv] at h
        cases h
      · rw [hv] at h
        obtain ⟨before, d', after, settled, r', rfl, rfl, hs⟩ := ih h
        exact ⟨d :: before, d', after, _, r', rfl, rfl, by rw [Run.settle_cons hv, hs]; rfl⟩

theorem makes_of_mem (h : c' ∈ c.made) : c.Makes c' := by
  rw [made] at h
  split at h
  · next hc =>
    rw [Bool.and_eq_true, Bool.not_eq_true'] at hc
    obtain ⟨hd, hr, hv⟩ := enters_iff.1 hc.1
    obtain ⟨depth, hd⟩ := Nat.exists_eq_succ_of_ne_zero hd
    rcases hp : c.run.world.prepare c.id c.options with ⟨stop | ⟨m, changed⟩, world⟩
    · rw [hp] at h
      cases h
    · rw [hp, hd] at h
      obtain ⟨before, d, after, settled, r', hds, rfl, hs⟩ := mem_inTurn m.id h
      exact .mk hd hr hv hp hc.2 hds hs
  · cases h

theorem made_of_prepared (he : c.enters) (ha : c.options.alone = false)
    (hp : c.run.world.prepare c.id c.options = (.ok (m, changed), world)) :
    c.made = inTurn (c.depth - 1) ((c.run.entered c.id world).inside m) m.dependencies := by
  rw [made, he, ha, Bool.not_false, Bool.and_self, if_pos rfl, hp]

theorem made_eq_nil (h : c.enters = true → c.options.alone = true ∨
    ∃ stop world, c.run.world.prepare c.id c.options = (.error stop, world)) : c.made = [] := by
  rw [made]
  split
  · next hc =>
    rw [Bool.and_eq_true, Bool.not_eq_true'] at hc
    obtain ⟨stop, world, hp⟩ := (h hc.1).resolve_left (Bool.not_eq_true _ ▸ hc.2)
    rw [hp]
  · rfl

theorem depth_of_mem_made (h : c' ∈ c.made) : c.depth = c'.depth + 1 := by
  cases makes_of_mem h with
  | mk deep => exact deep

theorem induction_made {P : Call → Prop} (h : ∀ c, (∀ c' ∈ c.made, P c') → P c) (c : Call) : P c := by
  obtain ⟨n, hn⟩ : ∃ n, c.depth = n := ⟨_, rfl⟩
  induction n generalizing c with
  | zero =>
    refine h c fun c' hc ↦ ?_
    have hd := depth_of_mem_made hc
    omega
  | succ n ih =>
    refine h c fun c' hc ↦ ih c' ?_
    have hd := depth_of_mem_made hc
    omega

theorem calls_eq (c : Call) : c.calls = c :: c.made.flatMap calls := by
  rw [calls]
  cases hd : c.depth with
  | zero =>
    rw [made, enters, hd]
    rfl
  | succ n =>
    rw [within]
    congr 1
    refine List.flatMap_congr fun c' hc ↦ ?_
    rw [calls, ← Nat.succ.inj (hd.symm.trans (depth_of_mem_made hc))]

/-- What holds of a visit and is handed on to the visits that it makes holds of all that come of
it. -/
theorem forall_calls {P : Call → Prop} (hP : ∀ c c', P c → c.Makes c' → P c') {c : Call} (h : P c) :
    ∀ c' ∈ c.calls, P c' := by
  revert h
  refine induction_made (P := fun c ↦ P c → ∀ c' ∈ c.calls, P c') (fun c ih h c' hc ↦ ?_) c
  rw [calls_eq] at hc
  rcases List.mem_cons.1 hc with rfl | hc
  · exact h
  · obtain ⟨c₁, hm, hc⟩ := List.mem_flatMap.1 hc
    exact ih c₁ hm (hP c c₁ h (makes_of_mem hm)) c' hc

theorem mem_calls_of_mem_made {c₁ : Call} (h : c₁ ∈ c.made) (hc : c' ∈ c₁.calls) : c' ∈ c.calls := by
  rw [calls_eq]
  exact List.mem_cons_of_mem c (List.mem_flatMap.2 ⟨c₁, h, hc⟩)

theorem self_mem_calls (c : Call) : c ∈ c.calls := by
  rw [calls_eq]
  exact List.mem_cons_self

theorem yields (c : Call) : Yields c.run (.visit c.id c.options) (.ofVisit c.result.1) c.result.2 :=
  yields_visit c.depth c.run c.id c.options

theorem yields_of_settle {importer : String} {ds : List Dependency}
    {p : Except Stop (List Dependency × Bool) × Run}
    (h : Run.settle (fun r id ↦ Run.visit depth r id .default) importer r ds = p) :
    Yields r (.settle importer ds) (.ofSettle p.1) p.2 :=
  h ▸ yields_settle (fun r id ↦ yields_visit depth r id .default) importer r ds

theorem exists_of_settle_error {importer : String} {ds : List Dependency} {stop : Stop} {r' : Run}
    (h : Run.settle (fun r id ↦ Run.visit depth r id .default) importer r ds = (.error stop, r')) :
    ∃ c ∈ inTurn depth r ds, c.result = (.error stop, r') := by
  induction ds generalizing r with
  | nil => cases (Prod.mk.inj h).1
  | cons d ds ih =>
    rw [inTurn]
    rcases hv : Run.visit depth r d.path .default with ⟨stop' | m, r₁⟩
    · rw [Run.settle_cons_error hv] at h
      obtain ⟨he, rfl⟩ := Prod.mk.inj h
      exact ⟨_, List.mem_cons_self, hv.trans (by rw [Except.error.inj he])⟩
    · rw [Run.settle_cons hv] at h
      rcases hs : Run.settle (fun r id ↦ Run.visit depth r id .default) importer r₁ ds with
        ⟨stop' | out, r₂⟩
      · rw [hs] at h
        obtain ⟨he, rfl⟩ := Prod.mk.inj h
        obtain ⟨c, hc, hr⟩ := ih (Except.error.inj he ▸ hs)
        exact ⟨c, List.mem_cons_of_mem _ hc, hr⟩
      · rw [hs] at h
        cases (Prod.mk.inj h).1

theorem Makes.result_of_error (h : c.Makes c') {stop : Stop} {r : Run}
    (he : c'.result = (.error stop, r)) : c.result = (.error stop, r) := by
  cases h with
  | @mk depth m changed world r' d before after settled deep remote visited prepared whole deps
    earlier =>
    rw [result, deep, Run.visit_of_prepared remote visited prepared whole, deps, settle_append earlier,
      Run.settle_cons_error he]
    rfl

theorem each_of_concluded {P : Module → Prop}
    {q : Except Stop (List Dependency × Bool) × Run}
    (hp : r.world.prepare id o = (.ok (m, changed), world))
    (h : Frame ((r.entered id world).inside m) q.2) (hs : r.world.Each P)
    (ht : (concluded r m changed q).2.world.Each P) : q.2.world.Each P := by
  obtain ⟨stop | ⟨ds, _ | _⟩, inner⟩ := q
  · exact ht
  · change (inner.world.finish m changed).Each P at ht
    exact h.each_inside hp hs rfl ht
  · rw [concluded] at ht
    cases hl : inner.world.graph.relink m ds with
    | error stop =>
      rw [hl] at ht
      exact ht
    | ok m' =>
      rw [hl] at ht
      change (inner.world.finish m' true).Each P at ht
      exact h.each_inside hp hs (relink_id hl).1 ht

/-- The modules at both ends of a visit are those between which each of the visits that it makes
takes place. -/
theorem Makes.each (h : c.Makes c') {P : Module → Prop} (hs : c.run.world.Each P)
    (ht : c.result.2.world.Each P) : c'.run.world.Each P ∧ c'.result.2.world.Each P := by
  cases h with
  | @mk depth m changed world r' d before after settled deep remote visited prepared whole deps
    earlier =>
    have hsettle := settle_append earlier (d :: after)
    rw [← deps] at hsettle
    have hall := yields_of_settle hsettle
    rw [result, deep, Run.visit_of_prepared remote visited prepared whole, hsettle] at ht
    have ht := each_of_concluded prepared hall.frame.1 hs ht
    have hs : ((c.run.entered c.id world).inside m).world.Each P := fun x m hm ↦
      hs x m ((World.prepare_eq prepared).1.has.1 hm)
    have hbefore := (yields_of_settle earlier).frame.1
    have hafter := (yields_settle (fun r id ↦ yields_visit depth r id .default) m.id r'
      (d :: after)).frame.1
    have hr' := hbefore.each hafter hs ht
    refine ⟨hr', ?_⟩
    have hvisit := (yields_visit depth r' d.path .default).frame.1
    rcases hv : Run.visit depth r' d.path .default with ⟨stop | found, r''⟩
    · rw [Run.settle_cons_error hv] at ht
      rw [result, hv]
      exact ht
    · rw [Run.settle_cons hv] at ht
      rw [hv] at hvisit
      rw [result, hv]
      exact hvisit.each (yields_settle (fun r id ↦ yields_visit depth r id .default) m.id r''
        after).frame.1 hr' ht

theorem Makes.tracked (h : c.Makes c') (ht : c.run.Tracked) : c'.run.Tracked := by
  cases h with
  | mk _ _ _ prepared _ _ earlier =>
    exact (yields_of_settle earlier).tracked (ht.inside prepared) fun _ h ↦ Outcome.noConfusion h

theorem Makes.stack_eq (h : c.Makes c') :
    ∃ m : Module, m.id = c.id ∧ c'.run.stack = m :: c.run.stack := by
  cases h with
  | @mk depth m _ _ _ _ _ _ _ _ _ _ prepared _ _ earlier =>
    refine ⟨m, (Prepares.of_eq prepared).id_eq, ?_⟩
    exact (yields_of_settle earlier).frame.2 fun _ h ↦ Outcome.noConfusion h

theorem result_of_stopped (hc : c' ∈ c.calls) {stop : Stop} {r : Run}
    (he : c'.result = (.error stop, r)) : c.result = (.error stop, r) :=
  forall_calls (P := fun c' ↦ c'.result = (.error stop, r) → c.result = (.error stop, r))
    (fun _ _ h hm he ↦ h (hm.result_of_error he)) (fun he ↦ he) c' hc he

end Making

section Visited

variable {c : Call} {r : Run} {depth : Nat}

structure Logs (log : Run → List String) (adds : Call → Bool) : Prop where
  enters : ∀ c, adds c = true → c.enters = true
  entered : ∀ c, c.enters = true → log (c.run.entered c.id (c.run.world.prepare c.id c.options).2) =
    if adds c then c.id :: log c.run else log c.run
  inside : ∀ r m, log (r.inside m) = log r
  finished : ∀ r stack m changed, log (r.finished stack m changed) = log r
  noted : ∀ r id, log (r.noted id) = log r

namespace Logs

variable {log : Run → List String} {adds : Call → Bool}

theorem settle (hv : ∀ r id, log (Run.visit depth r id .default).2 =
      (((calls ⟨depth, r, id, .default⟩).filter adds).map (·.id)).reverse ++ log r)
    (importer : String) (ds : List Dependency) :
    log (Run.settle (fun r id ↦ Run.visit depth r id .default) importer r ds).2 =
      ((((inTurn depth r ds).flatMap calls).filter adds).map (·.id)).reverse ++ log r := by
  induction ds generalizing r with
  | nil => rfl
  | cons d ds ih =>
    have hd := hv r d.path
    rw [inTurn, List.flatMap_cons, List.filter_append, List.map_append, List.reverse_append,
      List.append_assoc, ← hd]
    rcases hr : Run.visit depth r d.path .default with ⟨stop | m, r'⟩
    · rw [Run.settle_cons_error hr]
      rfl
    · rw [Run.settle_cons hr]
      exact ih

/-- The list after a visit tells which of the visits that come of it have added to it. -/
theorem result (h : Logs log adds) (c : Call) :
    log c.result.2 = ((c.calls.filter adds).map (·.id)).reverse ++ log c.run := by
  obtain ⟨depth, r, id, o⟩ := c
  induction depth generalizing r id o with
  | zero =>
    have ha : ¬adds ⟨0, r, id, o⟩ = true := fun ha ↦ Bool.noConfusion (h.enters _ ha)
    rw [calls_eq, made_eq_nil fun he ↦ Bool.noConfusion he, List.flatMap_nil,
      List.filter_cons_of_neg ha]
    rfl
  | succ depth ih =>
    rw [calls_eq, Call.result]
    dsimp only
    by_cases he : Call.enters ⟨depth + 1, r, id, o⟩ = true
    · obtain ⟨-, hr, hv⟩ := enters_iff.1 he
      dsimp only at hr hv
      have hentered := h.entered _ he
      dsimp only at hentered
      -- what the entered module adds comes below what the visits to its dependencies add
      have hhead : ∀ cs : List Call,
          (((Call.mk (depth + 1) r id o :: cs).filter adds).map (·.id)).reverse ++ log r =
            ((cs.filter adds).map (·.id)).reverse ++ log (r.entered id (r.world.prepare id o).2) := by
        intro cs
        rw [hentered, List.filter_cons]
        split <;> simp
      rw [hhead]
      rcases hp : r.world.prepare id o with ⟨stop | ⟨m, changed⟩, world⟩
      · rw [Run.visit_of_unprepared hr hv hp, made_eq_nil fun _ ↦ .inr ⟨stop, world, hp⟩]
        rfl
      · cases ha : o.alone with
        | true =>
          rw [made_eq_nil fun _ ↦ .inl ha, Run.visit, hr]
          dsimp only
          rw [if_neg fun hc ↦ hv (List.contains_iff_mem.1 hc), hp]
          dsimp only
          rw [ha]
          exact h.finished (r.entered id world) r.stack m changed
        | false =>
          have hs := @settle ((r.entered id world).inside m) depth log adds
            (fun r id ↦ ih r id .default) m.id m.dependencies
          rw [h.inside] at hs
          rw [Run.visit_of_prepared hr hv hp ha, made_of_prepared he ha hp]
          refine Eq.trans ?_ hs
          rcases Run.settle (fun r id ↦ Run.visit depth r id .default) m.id
            ((r.entered id world).inside m) m.dependencies with ⟨stop | ⟨ds, _ | _⟩, inner⟩
          · rfl
          · exact h.finished inner r.stack m changed
          · rw [concluded]
            cases inner.world.graph.relink m ds with
            | error stop => rfl
            | ok m' => exact h.finished inner r.stack m' true
    · rw [made_eq_nil fun h ↦ absurd h he, List.flatMap_nil,
        List.filter_cons_of_neg fun ha ↦ he (h.enters _ ha)]
      rw [Call.enters] at he
      rw [Run.visit]
      cases hr : r.world.graph.remote.find? id with
      | some m => rfl
      | none =>
        dsimp only
        rw [hr] at he
        have hv : r.visited.contains id = true := by simpa using he
        rw [if_pos hv, Run.revisit]
        dsimp only
        cases (r.stack.find? (·.id = id)).or (r.world.graph.modules.find? id) <;>
          exact h.noted r id

end Logs

theorem logs_visited : Logs (·.visited) enters where
  enters _ h := h
  entered c h := by rw [if_pos h]; rfl
  inside _ _ := rfl
  finished _ _ _ _ := rfl
  noted _ _ := rfl

theorem visited_result (c : Call) :
    c.result.2.visited = (entered c.calls).reverse ++ c.run.visited :=
  logs_visited.result c

theorem nodup_visited {r' : Run} {t : Task} {out : Outcome} (h : Yields r t out r')
    (hr : r.visited.Nodup) : r'.visited.Nodup := by
  induction h with
  | deep => exact hr
  | vendored => exact hr
  | again => exact hr
  | lost => exact hr
  | unprepared _ hv => exact List.nodup_cons.2 ⟨hv, hr⟩
  | leaf _ hv => exact List.nodup_cons.2 ⟨hv, hr⟩
  | dropped _ hv _ _ _ ih => exact ih (List.nodup_cons.2 ⟨hv, hr⟩)
  | kept _ hv _ _ _ ih => exact ih (List.nodup_cons.2 ⟨hv, hr⟩)
  | broken _ hv _ _ _ _ ih => exact ih (List.nodup_cons.2 ⟨hv, hr⟩)
  | relinked _ hv _ _ _ _ ih => exact ih (List.nodup_cons.2 ⟨hv, hr⟩)
  | done => exact hr
  | failed _ ih => exact ih hr
  | cut _ _ ih ih' => exact ih' (ih hr)
  | next _ _ ih ih' => exact ih' (ih hr)

end Visited
end Call

namespace World

def entry (w : World) (id : String) (o : Options) : Call :=
  ⟨w.depthBound, Run.start w, id, o⟩

def calls (w : World) (text : String) (o : Options) : List Call :=
  match w.entryId text with
  | .error _ => []
  | .ok id => (w.entry id o).calls

theorem calls_eq_of_entryId {w : World} {text id : String} (h : w.entryId text = .ok id)
    (o : Options) : w.calls text o = (w.entry id o).calls := by
  rw [calls, h]

theorem exists_call_of_visited {w : World} {text id x : String} {o : Options}
    (he : w.entryId text = .ok id) (hx : x ∈ (w.entry id o).result.2.visited) :
    ∃ c ∈ w.calls text o, c.enters = true ∧ c.id = x := by
  rw [Call.visited_result] at hx
  rcases List.mem_append.1 hx with hx | hx
  · obtain ⟨c, hc, hid⟩ := List.mem_map.1 (List.mem_reverse.1 hx)
    obtain ⟨hc, henters⟩ := List.mem_filter.1 hc
    rw [calls_eq_of_entryId he]
    exact ⟨c, hc, henters, hid⟩
  · cases hx

theorem compile_eq {w : World} {text id : String} (h : w.entryId text = .ok id) (o : Options) :
    (∃ stop, (w.entry id o).result.1 = .error stop ∧
      w.compile text o = (.error stop, (w.entry id o).result.2.world)) ∨
    ∃ m, (w.entry id o).result.1 = .ok m ∧ w.compile text o =
      (.ok m, (w.entry id o).result.2.world.persistAliases (w.entry id o).result.2.visited) := by
  rw [compile, h]
  dsimp only
  rw [show Run.visit w.depthBound (Run.start w) id o = (w.entry id o).result from rfl]
  rcases (w.entry id o).result with ⟨stop | m, r⟩
  · exact .inl ⟨stop, rfl, rfl⟩
  · exact .inr ⟨m, rfl, rfl⟩

end World

section Passing

variable {w : World} {r r' : Run} {t : Task} {out : Outcome} {id : String} {o : Options} {m : Module}
  {changed : Bool} {world : World}

def Writes (r r' : Run) : Prop :=
  Through (Keeps r.world.graph.store fun x ↦ x ∉ r.visited ∧ x ∈ r'.visited) r.world.disk
    r'.world.disk

namespace Writes

variable {r'' inner : Run} {m' : Module}

theorem of_eq (h : r'.world.disk = r.world.disk) : Writes r r' := by
  rw [Writes, h]
  exact .refl _

theorem trans (h : Writes r r') (h' : Writes r' r'') (hf : Frame r r') (hf' : Frame r' r'') :
    Writes r r'' := by
  rw [Writes, hf.store] at h'
  refine Through.trans (h.mono fun _ ha ↦ ha.mono fun x hx ↦ ⟨hx.1, hf'.visited x hx.2⟩) ?_
  exact h'.mono fun _ ha ↦ ha.mono fun x hx ↦ ⟨fun hm ↦ hx.1 (hf.visited x hm), hx.2⟩

theorem outside (hp : r.world.prepare id o = (.ok (m, changed), world))
    (h : Writes ((r.entered id world).inside m) inner) : Writes r inner := by
  have hsame := (World.prepare_eq hp).1
  change Through (Keeps world.graph.store _) world.disk _ at h
  rw [hsame.store, hsame.disk] at h
  exact h.mono fun _ ha ↦ ha.mono fun x hx ↦ ⟨fun hm ↦ hx.1 (List.mem_cons_of_mem id hm), hx.2⟩

theorem finished (h : Writes r inner) (hs : inner.world.graph.store = r.world.graph.store)
    (hm : Known False inner.world.graph.store m) (hv : m.id ∉ r.visited) (hin : m.id ∈ inner.visited)
    (stack : List Module) (changed : Bool) : Writes r (inner.finished stack m changed) := by
  have hlast := World.through_finish hm.toFiled changed
  rw [hs] at hlast
  refine Through.trans h (hlast.mono fun _ ha ↦ ha.mono ?_)
  rintro x rfl
  exact ⟨hv, hin⟩

end Writes

/-- In a part of a run only modules are written that are visited in it for the first time. -/
theorem Yields.writes (h : Yields r t out r') (hs : r.Sound False fun _ ↦ True) (ht : t.Proper) :
    Writes r r' := by
  have hT : Faithful False fun _ ↦ True := False.elim
  have hall : ∀ w : World, w.Each fun _ ↦ True := fun _ _ _ _ ↦ trivial
  induction h with
  | deep => exact .of_eq rfl
  | vendored => exact .of_eq rfl
  | again => exact .of_eq rfl
  | lost => exact .of_eq rfl
  | unprepared _ _ hp => exact .of_eq (World.prepare_eq hp).1.disk
  | @leaf r id o m changed world _ hv hp _ =>
    obtain ⟨hm, -, -⟩ := hs.inside hT ht hp
    have hsame := (World.prepare_eq hp).1
    have hid := (Prepares.of_eq hp).id_eq
    have hentered : Writes r (r.entered id world) := .of_eq hsame.disk
    rw [← hsame.store] at hm
    exact hentered.finished hsame.store hm (hid ▸ hv) (hid ▸ List.mem_cons_self) r.stack changed
  | dropped _ _ hp _ _ ih =>
    obtain ⟨-, hs', ht'⟩ := hs.inside hT ht hp
    exact (ih hs' ht').outside hp
  | @kept r inner id o m changed world ds _ hv hp _ hb ih =>
    obtain ⟨hm, hs', ht'⟩ := hs.inside hT ht hp
    have hstore := hb.frame.1.store.trans (World.prepare_eq hp).1.store
    have hid := (Prepares.of_eq hp).id_eq
    rw [← hstore] at hm
    exact ((ih hs' ht').outside hp).finished hstore hm (hid ▸ hv)
      (hid ▸ hb.frame.1.visited id List.mem_cons_self) r.stack changed
  | broken _ _ hp _ _ _ ih =>
    obtain ⟨-, hs', ht'⟩ := hs.inside hT ht hp
    exact (ih hs' ht').outside hp
  | @relinked r inner id o m m' changed world ds _ hv hp _ hb hl ih =>
    obtain ⟨hm, hs', ht'⟩ := hs.inside hT ht hp
    have hstore := hb.frame.1.store.trans (World.prepare_eq hp).1.store
    have hid := (relink_id hl).1.trans (Prepares.of_eq hp).id_eq
    rw [← hstore] at hm
    have hm' : Known False inner.world.graph.store m' :=
      Known.relink hm (hb.sound hT hs' ht' (hall _)).2 hl
    exact ((ih hs' ht').outside hp).finished hstore hm' (hid ▸ hv)
      (hid ▸ hb.frame.1.visited id List.mem_cons_self) r.stack true
  | done => exact .of_eq rfl
  | failed _ ih => exact ih hs (ht _ List.mem_cons_self).2
  | @cut r r' r'' importer d rest m stop hf ho ih ih' =>
    obtain ⟨hframe, hst⟩ := hf.frame
    have hvisit := (ht d List.mem_cons_self).2
    have hs' := hs.after hframe (hst fun _ h ↦ Outcome.noConfusion h)
      (hf.sound hT hs hvisit (hall _)).1
    exact (ih hs hvisit).trans (ih' hs' fun d' hd ↦ ht d' (List.mem_cons_of_mem d hd)) hframe
      ho.frame.1
  | @next r r' r'' importer d rest settled m changed hf ho ih ih' =>
    obtain ⟨hframe, hst⟩ := hf.frame
    have hvisit := (ht d List.mem_cons_self).2
    have hs' := hs.after hframe (hst fun _ h ↦ Outcome.noConfusion h)
      (hf.sound hT hs hvisit (hall _)).1
    exact (ih hs hvisit).trans (ih' hs' fun d' hd ↦ ht d' (List.mem_cons_of_mem d hd)) hframe
      ho.frame.1

structure Run.Passes (w : World) (r : Run) : Prop where
  frame : Frame (Run.start w) r
  writes : Writes (Run.start w) r
  sound : r.Sound False fun _ ↦ True
  tracked : r.Tracked

namespace Run.Passes

theorem start {F : Prop} {T : String → Prop} (h : Graph.Sound F T w) : (Run.start w).Passes w :=
  ⟨.refl _, .of_eq rfl, ⟨h.weaken, fun _ hm ↦ by cases hm⟩, tracked_start w⟩

theorem inside (h : r.Passes w) (hid : ModuleId.Proper id)
    (hp : r.world.prepare id o = (.ok (m, changed), world)) :
    ((r.entered id world).inside m).Passes w := by
  have hsame := (World.prepare_eq hp).1
  have hf : Frame r (r.entered id world) := .entered hsame
  obtain ⟨-, hs, -⟩ := h.sound.inside False.elim hid hp
  have hw : Writes (Run.start w) (r.entered id world) :=
    h.writes.trans (.of_eq hsame.disk) h.frame hf
  have hall := h.frame.trans hf
  exact ⟨⟨hall.folder, hall.store, hall.settings, hall.visited, hall.cyclic, hall.modules,
    hall.remote, hall.vendored⟩, hw, hs, h.tracked.inside hp⟩

/-- Whatever comes of a part of a run, it has changed and written only what it has visited. -/
theorem ahead (h : r.Passes w) (hy : Yields r t out r') (ht : t.Proper) :
    Frame (Run.start w) r' ∧ Writes (Run.start w) r' :=
  ⟨h.frame.trans hy.frame.1, h.writes.trans (hy.writes h.sound ht) h.frame hy.frame.1⟩

theorem after (h : r.Passes w) (hy : Yields r t out r') (ht : t.Proper)
    (hout : ∀ stop, out ≠ .stopped stop) : r'.Passes w := by
  obtain ⟨hf, hw⟩ := h.ahead hy ht
  refine ⟨hf, hw, h.sound.after hy.frame.1 (hy.frame.2 hout) ?_, hy.tracked h.tracked hout⟩
  exact (hy.sound False.elim h.sound ht fun _ _ _ ↦ trivial).1

end Run.Passes

namespace Call

variable {c c' : Call}

theorem Makes.passes (h : c.Makes c') (hr : c.run.Passes w) (hid : ModuleId.Proper c.id) :
    c'.run.Passes w ∧ ModuleId.Proper c'.id := by
  cases h with
  | @mk depth m changed world r d before after settled _ _ _ prepared _ deps earlier =>
    obtain ⟨-, -, ht⟩ := hr.sound.inside False.elim hid prepared
    have hmem : ∀ d' ∈ before ++ d :: after, d' ∈ m.dependencies := fun d' hd ↦ deps ▸ hd
    refine ⟨(hr.inside hid prepared).after (yields_of_settle earlier) (fun d' hd ↦ ht d' ?_)
      fun _ h ↦ Outcome.noConfusion h, (ht d ?_).2⟩
    · exact hmem d' (List.mem_append_left _ hd)
    · exact hmem d (List.mem_append_right _ List.mem_cons_self)

theorem passes_of_mem_calls {F : Prop} {T : String → Prop} (hs : Sound F T w) {text : String}
    (he : w.entryId text = .ok id) (hc : c ∈ (w.entry id o).calls) :
    c.run.Passes w ∧ ModuleId.Proper c.id :=
  forall_calls (P := fun c ↦ c.run.Passes w ∧ ModuleId.Proper c.id)
    (fun _ _ h hm ↦ hm.passes h.1 h.2) ⟨.start hs, proper_entryId he⟩ c hc

end Call
end Passing
end SiteCompiler.Graph
