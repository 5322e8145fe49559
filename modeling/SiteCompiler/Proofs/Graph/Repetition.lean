import SiteCompiler.Proofs.Graph.Cycles

namespace SiteCompiler.Graph

variable {C K R : String → Prop} {final : String → Module} {v w world : World}
variable {r r' s s' : Run} {t : Task} {out : Outcome} {id importer : String} {m : Module}
variable {d : Dependency} {ds rest : List Dependency}

theorem Yields.reaches_of_mem_cyclic (h : Yields r t out r') (hw : r'.LeadsTo w)
    (hr : r.Traversal w) (ht : t.Follows r w) (hout : ∀ stop, out ≠ .stopped stop) :
    ∀ x ∈ r'.cyclic, x ∈ r.cyclic ∨ ∃ a ∈ t.ids, w.Reaches a x := by
  induction h with
  | deep => exact absurd rfl (hout _)
  | vendored => exact fun _ ↦ .inl
  | @again r id o m hm hv hk =>
    intro x hx
    rcases List.mem_append.1 hx with hx | hx
    · exact .inr ⟨id, List.mem_cons_self, (Run.leads_of_mem_cycleTo hr.chain ht.2 hx).1⟩
    · exact .inl hx
  | lost => exact absurd rfl (hout _)
  | unprepared => exact absurd rfl (hout _)
  | leaf => exact fun _ ↦ .inl
  | dropped => exact absurd rfl (hout _)
  | @kept r inner id o m changed world ds hm hv hp ha hb ih =>
    have hout : ∀ stop, Outcome.settled ds false ≠ .stopped stop := fun _ h ↦ Outcome.noConfusion h
    obtain ⟨hto, -, hfollows, -⟩ := hr.below hm hv hp hb hout rfl rfl hw
    exact fun x hx ↦ (ih hto (hr.inside hp ht.2) hfollows hout x hx).imp_right
      (hfollows.leads (Prepares.of_eq hp).id_eq)
  | broken => exact absurd rfl (hout _)
  | @relinked r inner id o m m' changed world ds hm hv hp ha hb hl ih =>
    have hout : ∀ stop, Outcome.settled ds true ≠ .stopped stop := fun _ h ↦ Outcome.noConfusion h
    obtain ⟨hto, -, hfollows, -⟩ := hr.below hm hv hp hb hout (relink_id hl).1
      (by rw [relink_dependencies hl, hb.paths]) hw
    exact fun x hx ↦ (ih hto (hr.inside hp ht.2) hfollows hout x hx).imp_right
      (hfollows.leads (Prepares.of_eq hp).id_eq)
  | done => exact fun _ ↦ .inl
  | failed => exact absurd rfl (hout _)
  | cut => exact absurd rfl (hout _)
  | @next r r' r'' importer d rest settled m changed hf ho ih ih' =>
    obtain ⟨hvisit, hto, hrest⟩ := ht.next hw hf ho
    obtain ⟨hr', -, -⟩ := hf.traverses hto hr hvisit fun _ h ↦ Outcome.noConfusion h
    intro x hx
    rcases ih' hw hr' hrest (fun _ h ↦ Outcome.noConfusion h) x hx with hx | ⟨a, ha, hx⟩
    · refine (ih hto hr hvisit (fun _ h ↦ Outcome.noConfusion h) x hx).imp_right ?_
      rintro ⟨a, ha, hx⟩
      exact ⟨a, List.mem_singleton.1 ha ▸ List.mem_cons_self, hx⟩
    · exact .inr ⟨a, List.mem_cons_of_mem _ ha, hx⟩

/-- A part of a run changes nothing but for certain ids. -/
structure Run.Strays (K : String → Prop) (s s' : Run) : Prop where
  vendored : ∀ x, ¬K x → (s'.world.Vendors x ↔ s.world.Vendors x)
  visited : ∀ x, ¬K x → (x ∈ s'.visited ↔ x ∈ s.visited)
  cyclic : ∀ x, ¬K x → (x ∈ s'.cyclic ↔ x ∈ s.cyclic)
  stack : s'.stack = s.stack

/-- The second of two runs repeats the first one but for certain ids: the same modules are visited,
found to be on cycles and vendored. -/
structure Run.Repeats (K : String → Prop) (s r : Run) : Prop where
  vendored : ∀ x, ¬K x → (s.world.Vendors x ↔ r.world.Vendors x)
  visited : ∀ x, ¬K x → (x ∈ s.visited ↔ x ∈ r.visited)
  cyclic : ∀ x, ¬K x → (x ∈ s.cyclic ↔ x ∈ r.cyclic)
  stack : s.stack.map (·.id) = r.stack.map (·.id)
  apart : ∀ m ∈ s.stack, ¬K m.id

/-- A run goes from one point to another one while it does a task. A module is asked for by one that
imports it. -/
def Task.Goes (C K R : String → Prop) (w : World) (r r' : Run) : Task → Prop
  | .visit id o => o = .default ∧ R id ∧ (∀ top ∈ r.stack.head?, w.Imports top.id id) ∧
      ∃ m, Yields r (.visit id .default) (.found m) r'
  | .settle importer ds => ¬K importer ∧ (∃ top ∈ r.stack.head?, top.id = importer) ∧
      (∀ d ∈ ds, R d.path ∧ w.Imports importer d.path ∧ d.hash ≠ "" ∧
        (K d.path → C d.path → ∃ target, w.Has d.path target ∧ d.hash = target.hash)) ∧
      ∃ ds₀ changed, Yields r (.settle importer ds₀) (.settled ds changed) r'

/-- A run does again what has been done on the way to a world, from one point to another one. -/
structure Run.Along (C K R : String → Prop) (w : World) (s : Run) (t : Task) (r r' : Run) : Prop where
  repeats : s.Repeats K r
  traversal : r.Traversal w
  leadsTo : r'.LeadsTo w
  noted : ∀ x ∈ r'.cyclic, C x
  goes : t.Goes C K R w r r'

/-- The run is among modules that lead only to one another. -/
def Task.Inside (K R : String → Prop) : Task → Prop
  | .visit id o => o = .default ∧ R id ∧ K id
  | .settle importer ds => K importer ∧ ∀ d ∈ ds, R d.path ∧ K d.path

structure Run.Inside (K R : String → Prop) (s : Run) (t : Task) : Prop where
  stack : ∃ inner outer, s.stack = inner ++ outer ∧ (∀ m ∈ inner, K m.id) ∧ ∀ m ∈ outer, ¬K m.id
  task : t.Inside K R

/-- Certain modules are registered, and have names for all that they import. -/
def World.Firm (w : World) (C K R : String → Prop) : Prop :=
  ∀ x, R x → ¬K x → ∃ m, w.Has x m ∧ ∀ d ∈ m.dependencies, R d.path ∧ d.hash ≠ "" ∧
    (K d.path → C d.path → ∃ target, w.Has d.path target ∧ d.hash = target.hash)

theorem Yields.eq_of_vendored {o : Options} {n : Module} (h : Yields r (.visit id o) (.found m) r')
    (hn : r.world.graph.remote.find? id = some n) : m = n ∧ r' = r := by
  cases h with
  | vendored hm => exact ⟨Option.some_inj.1 (hm.symm.trans hn), rfl⟩
  | again hm => rw [hn] at hm; cases hm
  | leaf hm => rw [hn] at hm; cases hm
  | kept hm => rw [hn] at hm; cases hm
  | relinked hm => rw [hn] at hm; cases hm

namespace Run

namespace Strays

variable {s'' : Run}

theorem refl (s : Run) : s.Strays K s :=
  ⟨fun _ _ ↦ .rfl, fun _ _ ↦ .rfl, fun _ _ ↦ .rfl, rfl⟩

theorem trans (h : s.Strays K s') (h' : s'.Strays K s'') : s.Strays K s'' where
  vendored := fun x hx ↦ (h'.vendored x hx).trans (h.vendored x hx)
  visited := fun x hx ↦ (h'.visited x hx).trans (h.visited x hx)
  cyclic := fun x hx ↦ (h'.cyclic x hx).trans (h.cyclic x hx)
  stack := h'.stack.trans h.stack

/-- A cycle that is closed among certain modules consists of these. -/
theorem noted (h : s.Inside K R (.visit id .default)) : s.Strays K (s.noted id) := by
  refine ⟨fun _ _ ↦ .rfl, fun _ _ ↦ .rfl, fun x hx ↦ ?_, rfl⟩
  obtain ⟨⟨inner, outer, hs, hin, hout⟩, -, -, hid⟩ := h
  refine ⟨fun h ↦ (List.mem_append.1 h).resolve_left fun hc ↦ ?_, List.mem_append_right _⟩
  obtain ⟨⟨m, hm, rfl⟩, rfl | ⟨n, hn, rfl⟩⟩ := mem_cycleTo.1 hc
  · exact hx hid
  · rw [hs] at hm hn
    have hm : m ∈ inner := (List.mem_append.1 hm).resolve_right fun hm ↦ hout m hm hid
    rw [List.takeWhile_append, if_neg] at hn
    · exact hx (hin n ((List.takeWhile_sublist _).mem hn))
    · intro he
      have hall := List.takeWhile_eq_self_iff.1 ((List.takeWhile_sublist _).eq_of_length he) m hm
      simp at hall

theorem finished {inner : Run} (h : ((s.entered id world).inside (final id)).Strays K inner)
    (hid : K id) (hname : (final id).id = id) (hsame : s.world.SameModules world) :
    s.Strays K (inner.finished s.stack (final id) false) := by
  refine ⟨fun x hx ↦ ?_, fun x hx ↦ ?_, fun x hx ↦ h.cyclic x hx, rfl⟩
  · refine World.vendors_finish.trans ((or_iff_left fun he ↦ ?_).trans
      ((h.vendored x hx).trans hsame.vendors_iff))
    exact hx (hname.symm.trans he.2 ▸ hid)
  · refine (h.visited x hx).trans (List.mem_cons.trans (or_iff_right fun he ↦ ?_))
    exact hx (he ▸ hid)

end Strays

namespace Repeats

theorem start (h : ∀ x, ¬K x → (v.Vendors x ↔ w.Vendors x)) :
    (Run.start v).Repeats K (Run.start w) :=
  ⟨h, fun _ _ ↦ .rfl, fun _ _ ↦ .rfl, rfl, fun _ h ↦ by cases h⟩

theorem noted (h : s.Repeats K r) (id : String) : (s.noted id).Repeats K (r.noted id) := by
  refine ⟨h.vendored, h.visited, fun x hx ↦ ?_, h.stack, h.apart⟩
  rw [Run.noted, Run.noted, List.mem_append, List.mem_append, cycleTo_congr h.stack, h.cyclic x hx]

theorem inside (h : s.Repeats K r) {u : World} (hsame : s.world.SameModules world)
    (hsame' : r.world.SameModules u) {m' : Module} (hid : m'.id = m.id) (hK : ¬K m.id) :
    ((s.entered id world).inside m').Repeats K ((r.entered id u).inside m) := by
  refine ⟨fun x hx ↦ ?_, fun x hx ↦ ?_, h.cyclic, ?_, fun n hn ↦ ?_⟩
  · exact hsame.vendors_iff.trans ((h.vendored x hx).trans hsame'.vendors_iff.symm)
  · change x ∈ id :: s.visited ↔ x ∈ id :: r.visited
    rw [List.mem_cons, List.mem_cons, h.visited x hx]
  · change m'.id :: s.stack.map (·.id) = m.id :: r.stack.map (·.id)
    rw [hid, h.stack]
  · rcases List.mem_cons.1 hn with rfl | hn
    · rw [hid]
      exact hK
    · exact h.apart n hn

theorem finished {inner inner' : Run} (h : inner'.Repeats K inner)
    (hs : s.Repeats K r) (hr : r'.stack = r.stack) (hv : r'.visited = inner.visited)
    (hc : r'.cyclic = inner.cyclic)
    (hw : ∀ x, r'.world.Vendors x ↔ inner.world.Vendors x ∨ m.isRemote = true ∧ m.id = x) :
    (inner'.finished s.stack m false).Repeats K r' := by
  refine ⟨fun x hx ↦ ?_, fun x hx ↦ ?_, fun x hx ↦ ?_, ?_, hs.apart⟩
  · rw [hw, ← h.vendored x hx]
    exact World.vendors_finish
  · rw [hv]
    exact h.visited x hx
  · rw [hc]
    exact h.cyclic x hx
  · rw [hr]
    exact hs.stack

theorem keepsName (h : s.Repeats K r) (hl : ¬K importer) (hd : ¬K d.path) (hne : d.hash ≠ "")
    (hi : importer ∈ r.cyclic) (hp : d.path ∈ r.cyclic) : s.keepsName importer d := by
  rw [Run.keepsName, List.contains_iff_mem.2 ((h.cyclic _ hl).2 hi),
    List.contains_iff_mem.2 ((h.cyclic _ hd).2 hp), decide_eq_true hne]
  rfl

end Repeats

namespace Along

variable {o : Options}

theorem follows (h : Run.Along C K R w s (.visit id o) r r') :
    (Task.visit id .default).Follows r w :=
  ⟨rfl, h.goes.2.2.1⟩

theorem remote_eq_none (h : Run.Along C K R w s t r r') (hid : ¬K id)
    (hrem : s.world.graph.remote.find? id = none) : r.world.graph.remote.find? id = none := by
  rw [Option.eq_none_iff_forall_ne_some]
  intro m hm
  obtain ⟨n, hn⟩ := (h.repeats.vendored id hid).2 ⟨m, hm⟩
  rw [hrem] at hn
  cases hn

/-- Where the first run goes among the modules that are left aside, and the second one changes nothing
else, they still agree. -/
theorem of_strays (h : Run.Along C K R w s (.visit id o) r r')
    (hclosed : ∀ x y, R x → K x → w.Reaches x y → K y) (hid : K id) (hs : s.Strays K s') :
    s'.Repeats K r' := by
  obtain ⟨-, hR, -, m, hy⟩ := h.goes
  have hout : ∀ stop, Outcome.found m ≠ .stopped stop := fun _ h ↦ Outcome.noConfusion h
  have hreach : ∀ {x}, ¬K x → ¬∃ a ∈ (Task.visit id .default).ids, w.Reaches a x := by
    rintro x hx ⟨a, ha, hax⟩
    rw [List.mem_singleton.1 ha] at hax
    exact hx (hclosed id x hR hid hax)
  obtain ⟨hf, hst⟩ := hy.frame
  have hvisited : ∀ x, ¬K x → x ∈ r'.visited → x ∈ r.visited := fun x hx hv ↦
    ((hy.traverses h.leadsTo h.traversal h.follows hout).2.2 x hv).resolve_right (hreach hx)
  refine ⟨fun x hx ↦ ?_, fun x hx ↦ ?_, fun x hx ↦ ?_, ?_, ?_⟩
  · rw [hs.vendored x hx, h.repeats.vendored x hx, World.Vendors, World.Vendors, hf.remote x]
    by_cases hv : x ∈ r'.visited
    · exact .inl (hvisited x hx hv)
    · exact .inr hv
  · rw [hs.visited x hx, h.repeats.visited x hx]
    exact ⟨hf.visited x, hvisited x hx⟩
  · rw [hs.cyclic x hx, h.repeats.cyclic x hx]
    exact ⟨hf.cyclic x, fun hc ↦ (hy.reaches_of_mem_cyclic h.leadsTo h.traversal h.follows hout x
      hc).resolve_right (hreach hx)⟩
  · rw [hs.stack, hst hout]
    exact h.repeats.stack
  · rw [hs.stack]
    exact h.repeats.apart

theorem again (h : Run.Along C K R w s (.visit id o) r r')
    (hrem : r.world.graph.remote.find? id = none) (hv : id ∈ r.visited) : r' = r.noted id := by
  obtain ⟨-, -, -, m, hy⟩ := h.goes
  cases hy with
  | vendored hm =>
    rw [hrem] at hm
    cases hm
  | again => rfl
  | leaf _ hv' => exact absurd hv hv'
  | kept _ hv' => exact absurd hv hv'
  | relinked _ hv' => exact absurd hv hv'

/-- The way through the dependencies of a module, whatever it is when it is reached first. -/
theorem through {inner : Run} {u : World} {changed changed' : Bool}
    (h : Run.Along C K R w s (.visit id o) r r') (hw : w.Firm C K R)
    (hfinal : ∀ x m, w.Has x m → m = final x)
    (hid : ¬K id) (hsame : s.world.SameModules world)
    (hp : r.world.prepare id .default = (.ok (m, changed), u))
    (hb : Yields ((r.entered id u).inside m) (.settle m.id m.dependencies) (.settled ds changed') inner)
    (hds : ds = (final id).dependencies) (hto : inner.LeadsTo w) (hnoted : ∀ x ∈ inner.cyclic, C x) :
    Run.Along C K R w ((s.entered id world).inside (final id))
      (.settle (final id).id (final id).dependencies) ((r.entered id u).inside m) inner := by
  obtain ⟨-, hR, hi, -⟩ := h.goes
  obtain ⟨m₁, hm₁, hdeps⟩ := hw id hR hid
  obtain rfl := hfinal id m₁ hm₁
  have hname : (final id).id = id := hm₁.id_eq
  have hm : m.id = id := (Prepares.of_eq hp).id_eq
  refine ⟨h.repeats.inside hsame (World.prepare_eq hp).1 (hname.trans hm.symm) (hm.symm ▸ hid),
    h.traversal.inside hp hi, hto, hnoted, ?_, ⟨m, rfl, hm.trans hname.symm⟩, fun d hd ↦ ?_,
    m.dependencies, changed', ?_⟩
  · rw [hname]
    exact hid
  · obtain ⟨hRd, hne, hcurrent⟩ := hdeps d hd
    exact ⟨hRd, ⟨final id, hname.symm ▸ hm₁, d, hd, rfl⟩, hne, hcurrent⟩
  · rw [hname.trans hm.symm, ← hds]
    exact hb

/-- The dependencies of a module are settled in both runs when it is reached first. -/
theorem inside (h : Run.Along C K R w s (.visit id o) r r') (hw : w.Firm C K R)
    (hfinal : ∀ x m, w.Has x m → m = final x) (hid : ¬K id)
    (hrem : s.world.graph.remote.find? id = none) (hv : id ∉ s.visited)
    (hsame : s.world.SameModules world) : ∃ r₁ inner,
      Run.Along C K R w ((s.entered id world).inside (final id))
        (.settle (final id).id (final id).dependencies) r₁ inner ∧
      r'.visited = inner.visited ∧ r'.cyclic = inner.cyclic ∧ r'.stack = r.stack ∧
      ∀ x, r'.world.Vendors x ↔
        inner.world.Vendors x ∨ (final id).isRemote = true ∧ (final id).id = x := by
  obtain ⟨-, -, -, m, hy⟩ := h.goes
  have hrem := h.remote_eq_none hid hrem
  have hv : id ∉ r.visited := fun hr ↦ hv ((h.repeats.visited id hid).2 hr)
  cases hy with
  | vendored hm =>
    rw [hrem] at hm
    cases hm
  | again _ hv' => exact absurd hv' hv
  | @leaf _ _ _ _ changed u _ _ hp ha =>
    have hd : m.dependencies = [] := ha.resolve_left Bool.false_ne_true
    have hbelow : Yields ((r.entered id u).inside m) (.settle m.id m.dependencies)
        (.settled m.dependencies false) ((r.entered id u).inside m) := by
      rw [hd]
      exact .done _ _
    obtain ⟨hto, -, -, -, hhas⟩ := h.traversal.below hrem hv hp hbelow
      (fun _ h ↦ Outcome.noConfusion h) rfl rfl h.leadsTo
    have hm := hfinal id m hhas
    exact ⟨_, _, h.through hw hfinal hid hsame hp hbelow (by rw [hm]) hto h.noted, rfl, rfl, rfl,
      fun x ↦ hm ▸ World.vendors_finish⟩
  | @kept _ inner _ _ _ changed u ds _ _ hp _ hb =>
    obtain ⟨hto, -, -, -, hhas⟩ := h.traversal.below hrem hv hp hb
      (fun _ h ↦ Outcome.noConfusion h) rfl rfl h.leadsTo
    have hm := hfinal id m hhas
    exact ⟨_, inner, h.through hw hfinal hid hsame hp hb (by rw [hb.settled_eq, ← hm]) hto h.noted,
      rfl, rfl, rfl, fun x ↦ hm ▸ World.vendors_finish⟩
  | @relinked _ inner _ _ m₀ _ changed u _ _ _ hp _ hb hl =>
    have hd := relink_dependencies hl
    obtain ⟨hto, -, -, -, hhas⟩ := h.traversal.below hrem hv hp hb
      (fun _ h ↦ Outcome.noConfusion h) (relink_id hl).1 (by rw [hd, hb.paths]) h.leadsTo
    have hm := hfinal id m hhas
    rw [hm] at hd
    exact ⟨_, inner, h.through hw hfinal hid hsame hp hb hd.symm hto h.noted, rfl, rfl, rfl,
      fun x ↦ hm ▸ World.vendors_finish⟩

theorem next {r'' : Run} (h : Run.Along C K R w s (.settle importer (d :: rest)) r r'')
    (hfinal : ∀ x m, w.Has x m → m = final x) : ∃ r',
      Run.Along C K R w s (.visit d.path .default) r r' ∧ ∀ s' : Run, s'.Repeats K r' →
        Run.Along C K R w s' (.settle importer rest) r' r'' ∧
          (d.hash = (final d.path).hash ∨ s'.keepsName importer d) := by
  obtain ⟨hl, ⟨top, htop, rfl⟩, hds, ds₀, changed, hy⟩ := h.goes
  obtain ⟨hR, -, hne, hcurrent⟩ := hds d List.mem_cons_self
  have hfollows : (Task.settle top.id ds₀).Follows r w := by
    refine ⟨⟨top, htop, rfl⟩, fun d₁ hd₁ ↦ ?_⟩
    have hmem := List.mem_map_of_mem (f := Dependency.path) hd₁
    rw [← hy.paths] at hmem
    obtain ⟨d₂, hd₂, he⟩ := List.mem_map.1 hmem
    exact he ▸ (hds d₂ hd₂).2.1
  generalize hsettled : d :: rest = settled at hy
  cases hy with
  | done => cases hsettled
  | @next _ r' _ _ d₀ rest₀ _ m changed hf ho =>
    obtain ⟨hd, rfl⟩ := List.cons.inj hsettled
    have hp : d.path = d₀.path := by rw [hd, Run.settledAs_path]
    obtain ⟨hvisit, hto, -⟩ := hfollows.next h.leadsTo hf ho
    obtain ⟨hr', ⟨-, hfound⟩, -⟩ := hf.traverses hto h.traversal hvisit
      fun _ h ↦ Outcome.noConfusion h
    have hnoted : ∀ x ∈ r'.cyclic, C x := fun x hx ↦ h.noted x (ho.frame.1.cyclic x hx)
    have halong : Run.Along C K R w s (.visit d.path .default) r r' :=
      ⟨h.repeats, h.traversal, hto, hnoted, rfl, hR, hp ▸ hvisit.2, m, hp ▸ hf⟩
    have hst := hf.frame.2 fun _ h ↦ Outcome.noConfusion h
    refine ⟨r', halong, fun s' hs' ↦ ⟨⟨hs', hr', h.leadsTo, h.noted, hl, ⟨top, hst ▸ htop, rfl⟩,
      fun d' hd' ↦ hds d' (List.mem_cons_of_mem d hd'), rest₀, changed, ho⟩, ?_⟩⟩
    rw [← hp] at hf hfound
    have hapart : ∀ x ∈ r.stack, ¬K x.id := fun x hx ↦ by
      have hmem := List.mem_map_of_mem (f := Module.id) hx
      rw [← h.repeats.stack] at hmem
      obtain ⟨y, hy, he⟩ := List.mem_map.1 hmem
      exact he ▸ h.repeats.apart y hy
    have hhash : w.Has d.path m → d.hash = (final d.path).hash ∨
        top.id ∈ r'.cyclic ∧ d.path ∈ r'.cyclic := fun hhas ↦ by
      obtain rfl := hfinal _ _ hhas
      rw [hp]
      have hcases := r'.settledAs_cases top.id d₀ (final d.path)
      rwa [← hd, hp] at hcases
    by_cases hK : K d.path
    · have hhas := hfound.resolve_left fun ⟨hmem, hid⟩ ↦ hapart m hmem (hid ▸ hK)
      rcases hhash hhas with he | ⟨-, hcyclic⟩
      · exact .inl he
      · obtain ⟨target, htarget, he⟩ := hcurrent hK (hnoted _ hcyclic)
        exact .inl (hfinal _ _ htarget ▸ he)
    · have hnamed : w.Has d.path m → d.hash = (final d.path).hash ∨ s'.keepsName top.id d :=
        fun hhas ↦ (hhash hhas).imp_right fun ⟨hi, hcyclic⟩ ↦ hs'.keepsName hl hK hne hi hcyclic
      rcases hfound with ⟨hmem, hid⟩ | hhas
      · cases hrem : r.world.graph.remote.find? d.path with
        | some n =>
          obtain ⟨rfl, rfl⟩ := hf.eq_of_vendored hrem
          exact hnamed (.inr (hto.remote _ _ hrem))
        | none =>
          -- what is on the stack is on a cycle with its top
          obtain rfl := halong.again hrem (hid ▸ h.traversal.visited m hmem)
          have hcycle : ∀ {x}, x ∈ cycleTo r.stack d.path → x ∈ (r.noted d.path).cyclic :=
            fun hx ↦ List.mem_append_left _ hx
          exact .inr (hs'.keepsName hl hK hne (hcycle (head_mem_cycleTo htop ⟨m, hmem, hid⟩))
            (hcycle (mem_cycleTo.2 ⟨⟨m, hmem, hid⟩, .inl rfl⟩)))
      · exact hnamed hhas

end Along

theorem Inside.of_along (h : Run.Along C K R w s (.visit id .default) r r') (hid : K id) :
    s.Inside K R (.visit id .default) :=
  ⟨⟨[], s.stack, rfl, (fun _ hm ↦ by cases hm), h.repeats.apart⟩, rfl, h.goes.2.1, hid⟩

theorem Inside.inside (h : s.Inside K R (.visit id .default)) (hname : (final id).id = id)
    (hd : ∀ d ∈ (final id).dependencies, R d.path ∧ K d.path) :
    ((s.entered id world).inside (final id)).Inside K R
      (.settle (final id).id (final id).dependencies) := by
  obtain ⟨⟨inner, outer, hs, hin, hout⟩, -, -, hid⟩ := h
  refine ⟨⟨final id :: inner, outer, ?_, fun m hm ↦ ?_, hout⟩, hname.symm ▸ hid, hd⟩
  · change final id :: s.stack = _
    rw [hs]
    rfl
  · rcases List.mem_cons.1 hm with rfl | hm
    · exact hname.symm ▸ hid
    · exact hin m hm

end Run

/-- A run does again what led to a world, or is among modules that lead only to one another. -/
theorem course_along (hw : w.Firm C K R) (hfinal : ∀ x m, w.Has x m → m = final x)
    (hclosed : ∀ x y, R x → K x → w.Reaches x y → K y)
    (hK : ∀ x, R x → K x → v.Vendors x ∨ ∀ d ∈ (final x).dependencies, R d.path ∧ K d.path) :
    Course R final
      (fun s t ↦ (∀ x, v.Vendors x → s.world.Vendors x) ∧
        ((∃ r r', Run.Along C K R w s t r r') ∨ s.Inside K R t))
      fun s t s' ↦ (∀ r r', Run.Along C K R w s t r r' → s'.Repeats K r') ∧
        (s.Inside K R t → s.Strays K s') := by
  -- among the modules that are left aside, it is enough that nothing else changes
  have hstrays : ∀ {s s' : Run} {id : String}, s.Strays K s' → K id →
      (∀ r r', Run.Along C K R w s (.visit id .default) r r' → s'.Repeats K r') ∧
        (s.Inside K R (.visit id .default) → s.Strays K s') := fun hs hid ↦
    ⟨fun _ _ h ↦ h.of_strays hclosed hid hs, fun _ ↦ hs⟩
  have hinside : ∀ {s : Run} {id : String}, (∃ r r', Run.Along C K R w s (.visit id .default) r r') ∨
      s.Inside K R (.visit id .default) → K id → s.Inside K R (.visit id .default) :=
    fun h hid ↦ h.elim (fun ⟨_, _, h⟩ ↦ .of_along h hid) id
  have halong : ∀ {s : Run} {id : String}, (∃ r r', Run.Along C K R w s (.visit id .default) r r') ∨
      s.Inside K R (.visit id .default) → ¬K id →
      ∃ r r', Run.Along C K R w s (.visit id .default) r r' :=
    fun h hid ↦ h.resolve_right fun h ↦ hid h.task.2.2
  have hnot : ∀ {s s' : Run} {id : String}, ¬K id → s.Inside K R (.visit id .default) →
      s.Strays K s' := fun hid h ↦ absurd h.task.2.2 hid
  have hbelow : ∀ {s : Run} {id : String}, (∀ x, v.Vendors x → s.world.Vendors x) → R id → K id →
      s.world.graph.remote.find? id = none →
      ∀ d ∈ (final id).dependencies, R d.path ∧ K d.path := by
    intro s id hv hR hid hrem
    refine (hK id hR hid).resolve_left fun h ↦ ?_
    obtain ⟨m, hm⟩ := hv id h
    rw [hrem] at hm
    cases hm
  refine ⟨?_, ?_, ?_, ?_, ?_, ?_, ?_, ?_, ?_⟩
  · rintro s id o ⟨-, ⟨r, r', h⟩ | h⟩
    · exact ⟨h.goes.2.1, h.goes.1⟩
    · exact ⟨h.task.2.1, h.task.1⟩
  · rintro s id ⟨-, h⟩ ⟨m, hm⟩
    by_cases hid : K id
    · exact hstrays (.refl s) hid
    · refine ⟨fun r r' h ↦ ?_, hnot hid⟩
      obtain ⟨n, hn⟩ := (h.repeats.vendored id hid).1 ⟨m, hm⟩
      obtain ⟨-, -, -, m, hy⟩ := h.goes
      obtain ⟨-, rfl⟩ := hy.eq_of_vendored hn
      exact h.repeats
  · rintro s id ⟨-, h⟩ hrem hv
    by_cases hid : K id
    · exact hstrays (.noted (hinside h hid)) hid
    · refine ⟨fun r r' h ↦ ?_, hnot hid⟩
      rw [h.again (h.remote_eq_none hid hrem) ((h.repeats.visited id hid).1 hv)]
      exact h.repeats.noted id
  · rintro s id world ⟨hvend, h⟩ hrem hv hsame hid'
    refine ⟨fun x hx ↦ hsame.vendors_iff.2 (hvend x hx), ?_⟩
    by_cases hid : K id
    · have hin := hinside h hid
      exact .inr (hin.inside hid' (hbelow hvend hin.task.2.1 hid hrem))
    · obtain ⟨r, r', h⟩ := halong h hid
      obtain ⟨r₁, inner, hin, -⟩ := h.inside hw hfinal hid hrem hv hsame
      exact .inl ⟨r₁, inner, hin⟩
  · rintro s inner id world ⟨hvend, h⟩ hrem hv hsame hid' - ⟨hrepeats, hstray⟩
    by_cases hid : K id
    · have hin := hinside h hid
      exact hstrays ((hstray (hin.inside hid' (hbelow hvend hin.task.2.1 hid hrem))).finished hid hid'
        hsame) hid
    · refine ⟨fun r r' h ↦ ?_, hnot hid⟩
      obtain ⟨r₁, inner', hin, hvisited, hcyclic, hst, hvendors⟩ := h.inside hw hfinal hid hrem hv hsame
      exact (hrepeats r₁ inner' hin).finished h.repeats hst hvisited hcyclic hvendors
  · rintro s importer -
    refine ⟨fun r r' h ↦ ?_, fun _ ↦ .refl s⟩
    obtain ⟨-, -, -, ds₀, changed, hy⟩ := h.goes
    obtain rfl : ds₀ = [] := List.map_eq_nil_iff.1 hy.paths.symm
    cases hy
    exact h.repeats
  · rintro s importer d rest ⟨hvend, ⟨r, r', h⟩ | ⟨hs, -, hd⟩⟩
    · obtain ⟨r₁, hfirst, -⟩ := h.next hfinal
      exact ⟨hvend, .inl ⟨r, r₁, hfirst⟩⟩
    · obtain ⟨hR, hid⟩ := hd d List.mem_cons_self
      exact ⟨hvend, .inr ⟨hs, rfl, hR, hid⟩⟩
  · rintro s s' importer d rest ⟨hvend, ⟨r, r', h⟩ | ⟨hs, hi, hd⟩⟩ hf hst ⟨hrepeats, hstray⟩
    · obtain ⟨r₁, hfirst, hrest⟩ := h.next hfinal
      exact ⟨fun x hx ↦ hf.vendors (hvend x hx), .inl ⟨r₁, r', (hrest s' (hrepeats r r₁ hfirst)).1⟩⟩
    · exact ⟨fun x hx ↦ hf.vendors (hvend x hx), .inr ⟨hst ▸ hs, hi, fun d' hd' ↦
        hd d' (List.mem_cons_of_mem d hd')⟩⟩
  · rintro s s' s'' importer d rest - - - ⟨hrepeats, hstray⟩ ⟨hrepeats', hstray'⟩
    refine ⟨fun r r' h ↦ ?_, fun ⟨hs, hi, hd⟩ ↦ ?_⟩
    · obtain ⟨r₁, hfirst, hrest⟩ := h.next hfinal
      exact hrepeats' r₁ r' (hrest s' (hrepeats r r₁ hfirst)).1
    · obtain ⟨hR, hid⟩ := hd d List.mem_cons_self
      have hfirst := hstray ⟨hs, rfl, hR, hid⟩
      exact hfirst.trans (hstray' ⟨hfirst.stack ▸ hs, hi, fun d' hd' ↦
        hd d' (List.mem_cons_of_mem d hd')⟩)

/-- Such a run finds the names there as they have to be: outside these modules it finds the same cycles
as before, and among them each name is current or belongs to a simple cycle. -/
theorem upkeep_along (hw : w.Firm C K R) (hfinal : ∀ x m, w.Has x m → m = final x)
    (hclosed : ∀ x y, R x → K x → w.Reaches x y → K y)
    (hK : ∀ x, R x → K x → v.Vendors x ∨ w.Has x (final x) ∧
      ∀ d ∈ (final x).dependencies, R d.path ∧ K d.path ∧ w.Named x d)
    (hback : ∀ x y, v.Vendors x → w.Reaches x y → w.Imports y x → v.Vendors y) :
    Upkeep R final
      (fun s t ↦ (s.Circles v w ∧ t.Leads w R (fun x d ↦ K x → w.Named x d) s) ∧
        (∀ x, v.Vendors x → s.world.Vendors x) ∧
          ((∃ r r', Run.Along C K R w s t r r') ∨ s.Inside K R t))
      fun s t s' ↦ (s'.Circles v w ∧ t.Encircles w s s') ∧
        (∀ r r', Run.Along C K R w s t r r' → s'.Repeats K r') ∧ (s.Inside K R t → s.Strays K s') := by
  have hcircles := course_circles (v := v) (R := R) (N := fun x d ↦ K x → w.Named x d) hfinal
    (fun x hx ↦ ?_) hback
  · refine ⟨hcircles.and (course_along hw hfinal hclosed fun x hx hxK ↦ ?_), ?_⟩
    · exact (hK x hx hxK).imp_right fun ⟨_, hd⟩ d hd' ↦ ⟨(hd d hd').1, (hd d hd').2.1⟩
    · rintro s s' importer d rest ⟨⟨-, ht⟩, -, hmode⟩ ⟨⟨-, hc⟩, hrepeats, -⟩
      rcases hmode with ⟨r, r', h⟩ | ⟨-, hi, -⟩
      · obtain ⟨r₁, hfirst, hrest⟩ := h.next hfinal
        exact (hrest s' (hrepeats r r₁ hfirst)).2
      · exact ((ht.2 d List.mem_cons_self).2.2 hi).keeps hfinal ht hc
  · by_cases hxK : K x
    · exact (hK x hx hxK).imp_right fun ⟨hm, hd⟩ ↦
        ⟨hm, fun d hd' ↦ ⟨(hd d hd').1, fun _ ↦ (hd d hd').2.2⟩⟩
    · obtain ⟨m, hm, hd⟩ := hw x hx hxK
      obtain rfl := hfinal x m hm
      exact .inr ⟨hm, fun d hd' ↦ ⟨(hd d hd').1, fun h ↦ absurd h hxK⟩⟩

/-- The way of a call that ends with a module can be gone again from another start. -/
theorem along_of_compile {w' : World} {text : String} {m₀ : Module}
    (hok : w.compile text .default = (.ok m₀, w')) (hv : ∀ x, ¬K x → (v.Vendors x ↔ w.Vendors x))
    (hR : R m₀.id) (hnoted : ∀ r, Yields (Run.start w) (.visit m₀.id .default) (.found m₀) r →
      ∀ x ∈ r.cyclic, C x) :
    ((Run.start v).Circles v w' ∧
        (Task.visit m₀.id .default).Leads w' R (fun x d ↦ K x → w'.Named x d) (Run.start v)) ∧
      (∀ x, v.Vendors x → (Run.start v).world.Vendors x) ∧
        ((∃ r r', Run.Along C K R w' (Run.start v) (.visit m₀.id .default) r r') ∨
          (Run.start v).Inside K R (.visit m₀.id .default)) := by
  obtain ⟨r, hy, hst, -, hw', -⟩ := traversal_of_compile hok
  have hto : r.LeadsTo w' := leadsTo_of_stack_eq_nil hst
    (hw' ▸ World.sameGraph_persistAliases r.world r.visited)
  have hnone : ∀ top ∈ (Run.start v).stack.head?, w'.Imports top.id m₀.id := fun _ h ↦ by cases h
  exact ⟨⟨.start v w', hR, rfl, hnone⟩, fun _ h ↦ h, .inl ⟨Run.start w, r, .start hv,
    traversal_start w w', hto, hnoted r hy, rfl, hR, (fun _ h ↦ by cases h), m₀, hy⟩⟩

end SiteCompiler.Graph
