import SiteCompiler.Proofs.Graph.Renewal
import SiteCompiler.Proofs.Graph.WarmStart
import SiteCompiler.Proofs.Site.Links
import SiteCompiler.Proofs.Site.Working

namespace SiteCompiler

namespace Graph

variable {F : Prop} {T : String → Prop} {w : World} {x y : String}

theorem Sound.mem_dependents (h : Sound F T w) (hl : ¬ModuleId.isRemote x) :
    y ∈ w.graph.dependents x ↔ w.Imports y x := by
  rw [dependents, List.mem_map]
  constructor
  · rintro ⟨m, hm, rfl⟩
    obtain ⟨hm, hany⟩ := List.mem_filter.1 hm
    obtain ⟨d, hd, he⟩ := List.any_eq_true.1 hany
    exact ⟨m, .inl (h.sorted.find?_of_mem hm), d, hd, of_decide_eq_true he⟩
  · intro hi
    have hy : ¬ModuleId.isRemote y := fun hr ↦ hl (World.isRemote_of_imports h hi hr)
    obtain ⟨m, hm, d, hd, he⟩ := hi
    refine ⟨m, List.mem_filter.2 ⟨ModuleTable.mem_of_find? (h.module?_of_has hm hy), ?_⟩, hm.id_eq⟩
    exact List.any_eq_true.2 ⟨d, hd, decide_eq_true he⟩

theorem Sound.nodup_dependents (h : Sound F T w) (x : String) : (w.graph.dependents x).Nodup :=
  List.pairwise_map.2 ((List.Pairwise.filter _ h.sorted).imp fun {m m'} (hlt : m.id < m'.id) ↦
    fun (he : m.id = m'.id) ↦ String.lt_irrefl m'.id (he ▸ hlt))

end Graph

namespace Site

open SiteCompiler.Graph (World Sound)
open Relation (ReflTransGen TransGen)

variable {s₀ s s' : Site} {seen waiting ids known : List String} {x y id path : String}
  {m m' : Module} {level : String → Nat}

theorem mem_fresh : x ∈ fresh waiting seen ids ↔ x ∈ ids ∧ x ∉ waiting ∧ x ∉ seen := by
  rw [fresh, List.mem_filter]
  simp

theorem hash?_eq_iff (hs : Sound False (fun _ ↦ True) s.world)
    (hs' : Sound False (fun _ ↦ True) s'.world) (hm : s.world.Has x m) (hm' : s'.world.Has x m') :
    s'.hash? x = s.hash? x ↔ ModuleId.isRemote x ∨ m'.hash = m.hash := by
  have hlocal : ∀ {s : Site} {m : Module}, Sound False (fun _ ↦ True) s.world → s.world.Has x m →
      ¬ModuleId.isRemote x → s.hash? x = some m.hash := by
    intro s m hs hm hl
    rw [hash?, show s.graph.module? x = some m from hs.module?_of_has hm hl]
    rfl
  have hremote : ∀ {s : Site}, Sound False (fun _ ↦ True) s.world → ModuleId.isRemote x →
      s.hash? x = none := by
    intro s hs hr
    rw [hash?, Option.map_eq_none_iff]
    exact Option.eq_none_iff_forall_ne_some.2 fun m hm ↦ (hs.modules x m hm).2.2 hr
  by_cases hr : ModuleId.isRemote x
  · rw [hremote hs hr, hremote hs' hr]
    exact iff_of_true rfl (.inl hr)
  · rw [hlocal hs hm hr, hlocal hs' hm' hr, Option.some_inj]
    exact ⟨.inr, fun h ↦ h.resolve_left hr⟩

theorem hash?_congr (hs : Sound False (fun _ ↦ True) s.world)
    (hs' : Sound False (fun _ ↦ True) s'.world) (hm : s.world.Has x m) (hm' : s'.world.Has x m) :
    s'.hash? x = s.hash? x :=
  (hash?_eq_iff hs hs' hm hm').2 (.inr rfl)

theorem recompile_of_compile {w' : World} (hok : s.world.compile x .default = (.ok m, w'))
    (hs : Sound False (fun _ ↦ True) w') (hm : w'.Has x m) (hl : ¬ModuleId.isRemote x) :
    ∃ b, s.recompile x = (.ok b, { s with world := w' }) ∧
      (b = true ↔ hash? { s with world := w' } x ≠ s.hash? x) := by
  have hhash : hash? { s with world := w' } x = some m.hash := by
    change (w'.graph.module? x).map (·.hash) = _
    rw [hs.module?_of_has hm hl]
    rfl
  refine ⟨decide (s.hash? x ≠ some m.hash), ?_, ?_⟩
  · rw [Site.recompile, Site.compile, hok]
  · rw [decide_eq_true_iff, ne_comm, hhash]

/-- What has been compiled and what waits, while a change of a module is followed. All that leads to the
module was there before, under an id that a call can be made with. -/
structure Reacts (s₀ : Site) (id : String) (s : Site) (seen waiting : List String) : Prop where
  sound : Sound False (fun _ ↦ True) s₀.world
  updating : s₀.world.Updating s.world
  isLocal : ¬ModuleId.isRemote id
  known : ∀ x, TransGen s.world.Imports x id → (∃ m, s₀.world.Has x m) ∧ ModuleId.NamesFile x
  nodup : (seen ++ waiting).Nodup
  waits : ∀ x ∈ waiting, TransGen s.world.Imports x id

namespace Reacts

theorem isLocal_of_waits (h : Reacts s₀ id s seen waiting) (hx : x ∈ waiting) :
    ¬ModuleId.isRemote x := fun hr ↦
  h.isLocal (World.isRemote_of_reaches h.updating.stands.sound (h.waits x hx).to_reflTransGen hr)

/-- A module that waits is compiled, and it gets another hash only if it still has its first one. -/
theorem recompile (h : Reacts s₀ id s seen (x :: waiting)) : ∃ b s', s.recompile x = (.ok b, s') ∧
    s₀.world.Updating s'.world ∧ s.world.Advances x s'.world ∧
    (b = true ↔ s'.hash? x ≠ s.hash? x) ∧ (b = true → s.hash? x = s₀.hash? x) := by
  have hx := h.waits x List.mem_cons_self
  obtain ⟨⟨m₀, hm₀⟩, hnames⟩ := h.known x hx
  have hl := h.isLocal_of_waits List.mem_cons_self
  obtain ⟨_, ⟨m, hm, -⟩, -⟩ := TransGen.head'_iff.1 hx
  obtain ⟨m', w', hok, -, hm', hupdating, hadvances⟩ :=
    h.updating.compile (Graph.entryId_self hl hnames) hm
  obtain ⟨b, hr, hchanged⟩ := recompile_of_compile hok hupdating.stands.sound hm' hl
  refine ⟨b, { s with world := w' }, hr, hupdating, hadvances, hchanged, fun hb ↦ ?_⟩
  have hsound := h.updating.stands.sound
  rcases h.updating.held x m₀ hm₀ with hm₀' | hc
  · exact hash?_congr h.sound hsound hm₀ hm₀'
  · refine absurd ?_ (hchanged.1 hb)
    exact hash?_congr hsound hupdating.stands.sound hm (hadvances.keeps x m hc hm)

theorem next (h : Reacts s₀ id s seen (x :: waiting)) (hu : s₀.world.Updating s'.world)
    (hi : s.world.Improves s'.world) (hn : ids.Nodup) (hids : ∀ y ∈ ids, s'.world.Imports y x) :
    Reacts s₀ id s' (x :: seen) (waiting ++ fresh waiting (x :: seen) ids) := by
  have hwaits : ∀ y ∈ x :: waiting, TransGen s'.world.Imports y id := by
    rw [hi.imports]
    exact h.waits
  refine ⟨h.sound, hu, h.isLocal, hi.imports ▸ h.known, ?_, fun y hy ↦ ?_⟩
  · rw [← List.append_assoc]
    refine List.nodup_append.2 ⟨List.nodup_middle.1 h.nodup, hn.filter _, ?_⟩
    rintro y hy _ hy' rfl
    obtain ⟨-, hw, hs⟩ := mem_fresh.1 hy'
    exact (List.mem_append.1 hy).elim hs hw
  · rcases List.mem_append.1 hy with hy | hy
    · exact hwaits y (List.mem_cons_of_mem x hy)
    · exact .head (hids y (mem_fresh.1 hy).1) (hwaits x List.mem_cons_self)

theorem pass (h : Reacts s₀ id s seen (x :: waiting)) (hu : s₀.world.Updating s'.world)
    (hi : s.world.Improves s'.world) : Reacts s₀ id s' (x :: seen) waiting := by
  have hnext := h.next hu hi List.nodup_nil fun y hy ↦ (List.not_mem_nil hy).elim
  rwa [fresh, List.filter_nil, List.append_nil] at hnext

theorem wait (h : Reacts s₀ id s seen (x :: waiting)) (hu : s₀.world.Updating s'.world)
    (hi : s.world.Improves s'.world) : Reacts s₀ id s' (x :: seen)
      (waiting ++ fresh waiting (x :: seen) (s'.graph.dependents x)) :=
  h.next hu hi (hu.stands.sound.nodup_dependents x) fun _ ↦
    (hu.stands.sound.mem_dependents (h.isLocal_of_waits List.mem_cons_self)).1

end Reacts

theorem propagate_changed {n : Nat} (h : s.recompile x = (.ok true, s')) :
    propagate (n + 1) s seen (x :: waiting) =
      (x :: (propagate n s' (x :: seen) (waiting ++ fresh waiting (x :: seen) (s'.graph.dependents x))).1,
        (propagate n s' (x :: seen) (waiting ++ fresh waiting (x :: seen) (s'.graph.dependents x))).2) := by
  rw [propagate, h]

theorem propagate_unchanged {n : Nat} (h : s.recompile x = (.ok false, s')) :
    propagate (n + 1) s seen (x :: waiting) = propagate n s' (x :: seen) waiting := by
  rw [propagate, h]

theorem Reacts.propagate (h : Reacts s₀ id s seen waiting) (n : Nat) :
    (propagate n s seen waiting).1.Nodup ∧
    (∀ x ∈ (propagate n s seen waiting).1,
      x ∉ seen ∧ (propagate n s seen waiting).2.hash? x ≠ s₀.hash? x) ∧
    s₀.world.Updating (propagate n s seen waiting).2.world ∧
    s.world.Improves (propagate n s seen waiting).2.world := by
  induction n generalizing s seen waiting with
  | zero => exact ⟨List.nodup_nil, fun _ hx ↦ (List.not_mem_nil hx).elim, h.updating, .refl _⟩
  | succ n ih =>
    cases waiting with
    | nil => exact ⟨List.nodup_nil, fun _ hx ↦ (List.not_mem_nil hx).elim, h.updating, .refl _⟩
    | cons x waiting =>
      obtain ⟨b, s', hr, hupdating, hadvances, hchanged, hfirst⟩ := h.recompile
      have himproves := hadvances.toImproves
      cases b with
      | false =>
        rw [propagate_unchanged hr]
        obtain ⟨hnodup, hall, hfinal, hrest⟩ := ih (h.pass hupdating himproves)
        exact ⟨hnodup, fun y hy ↦ (hall y hy).imp_left fun hs hm ↦ hs (List.mem_cons_of_mem x hm),
          hfinal, himproves.trans hrest⟩
      | true =>
        rw [propagate_changed hr]
        obtain ⟨hnodup, hall, hfinal, hrest⟩ := ih (h.wait hupdating himproves)
        refine ⟨List.nodup_cons.2 ⟨fun hx ↦ (hall x hx).1 List.mem_cons_self, hnodup⟩,
          fun y hy ↦ ?_, hfinal, himproves.trans hrest⟩
        rcases List.mem_cons.1 hy with rfl | hy
        · have hy := h.nodup
          obtain ⟨_, ⟨m, hm, -⟩, -⟩ := TransGen.head'_iff.1 (h.waits y List.mem_cons_self)
          obtain ⟨m', hm'⟩ := (hadvances.ids y).2 ⟨m, hm⟩
          -- the module is up to date by now, and stays as it is
          have hkept := hash?_congr hupdating.stands.sound hfinal.stands.sound hm'
            (hrest.keeps y m' hadvances.entry hm')
          refine ⟨fun hs ↦ (List.nodup_append.1 hy).2.2 y hs y List.mem_cons_self rfl, ?_⟩
          rw [hkept, ← hfirst rfl]
          exact hchanged.1 rfl
        · exact (hall y hy).imp_left fun hs hm ↦ hs (List.mem_cons_of_mem x hm)

section Levels

structure Ordered (level : String → Nat) (seen waiting : List String) : Prop where
  sorted : waiting.Pairwise fun x y ↦ level x ≤ level y
  close : ∀ x ∈ waiting, ∀ y ∈ waiting, level y ≤ level x + 1
  passed : ∀ x ∈ seen, ∀ y ∈ waiting, level x ≤ level y

theorem Ordered.next (h : Ordered level seen (x :: waiting)) (hids : ∀ y ∈ ids, level y = level x + 1) :
    Ordered level (x :: seen) (waiting ++ fresh waiting (x :: seen) ids) := by
  obtain ⟨hfirst, hsorted⟩ := List.pairwise_cons.1 h.sorted
  have hlevel : ∀ y ∈ fresh waiting (x :: seen) ids, level y = level x + 1 := fun y hy ↦
    hids y (mem_fresh.1 hy).1
  have hclose : ∀ y ∈ waiting, level y ≤ level x + 1 := fun y hy ↦
    h.close x List.mem_cons_self y (List.mem_cons_of_mem x hy)
  have hall : ∀ y ∈ waiting ++ fresh waiting (x :: seen) ids,
      level x ≤ level y ∧ level y ≤ level x + 1 := by
    intro y hy
    rcases List.mem_append.1 hy with hy | hy
    · exact ⟨hfirst y hy, hclose y hy⟩
    · have := hlevel y hy
      omega
  refine ⟨List.pairwise_append.2 ⟨hsorted, ?_, fun y hy z hz ↦ ?_⟩, fun y hy z hz ↦ ?_,
    fun y hy z hz ↦ ?_⟩
  · refine List.pairwise_iff_forall_sublist.2 fun {y z} hs ↦ ?_
    rw [hlevel y (hs.subset List.mem_cons_self),
      hlevel z (hs.subset (List.mem_cons_of_mem y List.mem_cons_self))]
  · rw [hlevel z hz]
    exact hclose y hy
  · exact (hall z hz).2.trans (Nat.add_le_add_right (hall y hy).1 1)
  · rcases List.mem_cons.1 hy with rfl | hy
    · exact (hall z hz).1
    · exact (h.passed y hy x List.mem_cons_self).trans (hall z hz).1

/-- All ways to a module are equally long: one on which a module imports another one leads one level
down. -/
def Leveled (w : World) (id : String) (level : String → Nat) : Prop :=
  ∀ x y, w.Imports x y → w.Reaches y id → level x = level y + 1

theorem Leveled.lt {w : World} (h : Leveled w id level) (hx : TransGen w.Imports x y)
    (hy : w.Reaches y id) : level y < level x := by
  induction hx using TransGen.head_induction_on with
  | single hi => exact h _ _ hi hy ▸ Nat.lt_succ_self _
  | head hi hz ih => exact h _ _ hi (hz.to_reflTransGen.trans hy) ▸ Nat.lt_succ_of_lt ih

/-- All that does not wait has the hashes that its dependencies have, and what waits is in the order of
its levels. -/
structure Descends (level : String → Nat) (id : String) (s : Site) (seen waiting : List String) :
    Prop where
  leveled : Leveled s.world id level
  ordered : Ordered level seen waiting
  upToDate : ∀ x ∉ waiting, s.world.Accords x

namespace Descends

theorem below (h : Descends level id s seen (x :: waiting)) (hr : Reacts s₀ id s seen (x :: waiting)) :
    ∀ y, TransGen s.world.Imports x y → s.world.Accords y := by
  intro y hy
  refine h.upToDate y fun hw ↦ ?_
  have hlt := h.leveled.lt hy (hr.waits y hw).to_reflTransGen
  rcases List.mem_cons.1 hw with rfl | hw
  · exact Nat.lt_irrefl _ hlt
  · exact Nat.not_lt.2 ((List.pairwise_cons.1 h.ordered.sorted).1 y hw) hlt

/-- The first one that waits is compiled; those that import it wait if it got another hash. -/
theorem next (h : Descends level id s seen (x :: waiting)) (hr : Reacts s₀ id s seen (x :: waiting))
    (hu : s₀.world.Updating s'.world) (ha : s.world.Advances x s'.world)
    (hids : ∀ y ∈ ids, s'.world.Imports y x)
    (hall : s'.hash? x ≠ s.hash? x → ∀ y, s'.world.Imports y x → y ∈ ids) :
    Descends level id s' (x :: seen) (waiting ++ fresh waiting (x :: seen) ids) := by
  have hsound := hr.updating.stands.sound
  have hx := (hr.waits x List.mem_cons_self).to_reflTransGen
  have hlevel : ∀ y, s'.world.Imports y x → level y = level x + 1 := fun y hy ↦
    h.leveled y x (ha.imports ▸ hy) hx
  refine ⟨fun y z hi hz ↦ ?_, h.ordered.next fun y hy ↦ hlevel y (hids y hy), fun y hy m' hm' ↦ ?_⟩
  · rw [ha.imports] at hi
    rw [World.Reaches, ha.imports] at hz
    exact h.leveled y z hi hz
  by_cases hne : y = x
  · subst hne
    exact ha.entry y .refl m' hm'
  have hw : y ∉ x :: waiting := fun hm ↦
    (List.mem_cons.1 hm).elim hne fun hm ↦ hy (List.mem_append_left _ hm)
  obtain ⟨m, hm⟩ := (ha.ids y).1 ⟨m', hm'⟩
  refine (h.upToDate y hw).of_others hu.stands.sound hm hne
    (fun z n hz hn ↦ ha.only (h.below hr) hz hn) (fun hi target htarget ↦ ?_) m' hm'
  obtain ⟨target', htarget'⟩ := (ha.ids x).2 ⟨target, htarget⟩
  refine ⟨target', htarget', ?_⟩
  by_contra hne'
  have hchanged : s'.hash? x ≠ s.hash? x := fun he ↦
    ((hash?_eq_iff hsound hu.stands.sound htarget htarget').1 he).elim
      (hr.isLocal_of_waits List.mem_cons_self) hne'
  have hi : s'.world.Imports y x := ha.imports ▸ hi
  -- a module that imports this one is on a higher level than all that came before
  refine hy (List.mem_append_right _ (mem_fresh.2 ⟨hall hchanged y hi,
    fun hm ↦ hw (List.mem_cons_of_mem x hm), fun hm ↦ ?_⟩))
  have hpassed := h.ordered.passed y ((List.mem_cons.1 hm).resolve_left hne) x List.mem_cons_self
  rw [hlevel y hi] at hpassed
  exact Nat.not_succ_le_self _ hpassed

end Descends

/-- If all ways are equally long then all is up to date in the end, and what got another hash is
reported. -/
theorem Descends.propagate (h : Descends level id s seen waiting) (hr : Reacts s₀ id s seen waiting)
    (hall : ∀ x ∈ seen, x ∈ known) (hleads : ∀ x, TransGen s.world.Imports x id → x ∈ known)
    {n : Nat} (hn : known.length ≤ n + seen.length) :
    (∀ x, (propagate n s seen waiting).2.world.Accords x) ∧
    ∀ x m, s.world.Has x m → (propagate n s seen waiting).2.hash? x ≠ s.hash? x →
      x ∈ (propagate n s seen waiting).1 := by
  induction n generalizing s seen waiting with
  | zero =>
    -- there are no more modules that could wait
    have hlength := (List.subperm_of_subset hr.nodup (fun x hx ↦ (List.mem_append.1 hx).elim
      (hall x) fun hx ↦ hleads x (hr.waits x hx))).length_le
    have hempty : waiting = [] := by
      rw [List.length_append] at hlength
      exact List.eq_nil_of_length_eq_zero (by omega)
    exact ⟨fun x ↦ h.upToDate x (hempty ▸ List.not_mem_nil), fun _ _ _ hne ↦ absurd rfl hne⟩
  | succ n ih =>
    cases waiting with
    | nil => exact ⟨fun x ↦ h.upToDate x List.not_mem_nil, fun _ _ _ hne ↦ absurd rfl hne⟩
    | cons x waiting =>
      obtain ⟨b, s', hrecompile, hupdating, hadvances, hchanged, -⟩ := hr.recompile
      have himproves := hadvances.toImproves
      have hx := hr.waits x List.mem_cons_self
      have hseen : ∀ y ∈ x :: seen, y ∈ known := List.forall_mem_cons.2 ⟨hleads x hx, hall⟩
      have hleads' : ∀ y, TransGen s'.world.Imports y id → y ∈ known :=
        himproves.imports ▸ hleads
      have hn' : known.length ≤ n + (x :: seen).length := by
        rw [List.length_cons]
        omega
      -- the others have the hashes that they had
      have hothers : ∀ y m, s.world.Has y m → y ≠ x → s'.hash? y = s.hash? y := fun y m hm hne ↦
        hash?_congr hr.updating.stands.sound hupdating.stands.sound hm
          (hadvances.only (h.below hr) hne hm)
      cases b with
      | false =>
        have hsame : s'.hash? x = s.hash? x := by
          by_contra hne
          exact Bool.false_ne_true (hchanged.2 hne)
        have hnext : Descends level id s' (x :: seen) (waiting ++ fresh waiting (x :: seen) []) :=
          h.next hr hupdating hadvances (fun y hy ↦ (List.not_mem_nil hy).elim)
            fun hne ↦ absurd hsame hne
        rw [fresh, List.filter_nil, List.append_nil] at hnext
        rw [propagate_unchanged hrecompile]
        obtain ⟨hmatches, hreported⟩ :=
          ih hnext (hr.pass hupdating himproves) hseen hleads' hn'
        refine ⟨hmatches, fun y m hm hne ↦ ?_⟩
        obtain ⟨m', hm'⟩ := (hadvances.ids y).2 ⟨m, hm⟩
        refine hreported y m' hm' fun he ↦ hne (he.trans ?_)
        by_cases hyx : y = x
        · exact hyx ▸ hsame
        · exact hothers y m hm hyx
      | true =>
        rw [propagate_changed hrecompile]
        obtain ⟨hmatches, hreported⟩ := ih (h.next hr hupdating hadvances
          (fun y ↦ (hupdating.stands.sound.mem_dependents (hr.isLocal_of_waits List.mem_cons_self)).1)
          fun _ y ↦ (hupdating.stands.sound.mem_dependents
            (hr.isLocal_of_waits List.mem_cons_self)).2)
          (hr.wait hupdating himproves) hseen hleads' hn'
        refine ⟨hmatches, fun y m hm hne ↦ ?_⟩
        by_cases hyx : y = x
        · exact hyx ▸ List.mem_cons_self
        · obtain ⟨m', hm'⟩ := (hadvances.ids y).2 ⟨m, hm⟩
          exact List.mem_cons_of_mem x (hreported y m' hm' fun he ↦
            hne (he.trans (hothers y m hm hyx)))

end Levels

section Change

variable {ws : List World} {s₁ : Site} {w' : World}

/-- All that is registered is up to date, but for one module, whose source may be another one by now.
It compiles, and no imports lead back afterwards. -/
structure Poised (s : Site) (id : String) : Prop where
  registered : ∃ m, s.world.Has id m
  named : ∀ x m, s.world.Has x m → ModuleId.NamesFile x
  sources : ∀ x m, x ≠ id → s.world.graph.module? x = some m →
    ∃ c, s.world.source? x = some c ∧ m.sourceHash = c.hash
  upToDate : ∀ x, s.world.Accords x
  compiles : ∃ m, (s.world.compile id .default).1 = .ok m
  acyclic : ∀ x, ¬(s.world.compile id .default).2.OnCycle x
  apart : ∀ x m, (s.world.compile id .default).2.Has x m → ModuleId.isRemote x ∨ s.world.Separate x

namespace Poised

theorem compile (h : s.Poised id) (hs : Sound False (fun _ ↦ True) s.world)
    (hl : ¬ModuleId.isRemote id) : ∃ m₀ w', s.world.compile id .default = (.ok m₀, w') ∧
      m₀.id = id ∧ w'.Has id m₀ ∧ s.world.Brings id w' ∧ s.world.Updating w' ∧ w'.Consistent id ∧
      (∀ x n, x ≠ id → s.world.Has x n → w'.Has x n) ∧
      ∀ x n, w'.Has x n → w'.Reaches id x ∨ s.world.Has x n := by
  obtain ⟨m, hm⟩ := h.registered
  obtain ⟨m₀, hok⟩ := h.compiles
  have hacyclic := h.acyclic
  have hapart := h.apart
  rcases hc : s.world.compile id .default with ⟨result, w'⟩
  rw [hc] at hok hacyclic hapart
  obtain rfl : result = .ok m₀ := hok
  obtain ⟨-, -, -, he, -, -, -, hfound⟩ := Graph.traversal_of_compile hc
  obtain rfl : id = m₀.id :=
    Except.ok.inj ((Graph.entryId_self hl (h.named id m hm)).symm.trans he)
  have hb := Graph.brings_of_compile hs hc
  have hawaits : s.world.Awaits m₀.id := ⟨hs, fun x n hn ↦ (hb.has x n hn).elim (hapart x),
    h.sources, h.upToDate⟩
  exact ⟨m₀, w', rfl, rfl, hfound, hb, hawaits.compile hc hacyclic hapart⟩

theorem isFile (h : s.Poised id) (hs : Sound False (fun _ ↦ True) s.world)
    (hl : ¬ModuleId.isRemote id) :
    s.world.disk.isFile (s.world.graph.folder.basePath id) = true := by
  obtain ⟨m₀, w', hc, -, hm₀, hb, -⟩ := h.compile hs hl
  obtain ⟨m, hm⟩ := h.registered
  have hapart : s.world.Separate id := by
    have hapart := h.apart id m₀
    rw [hc] at hapart
    exact (hapart hm₀).resolve_left hl
  obtain ⟨c, hsource, -⟩ := hb.sources id m₀ .refl (hb.sound.module?_of_has hm₀ hl) hapart
  rw [hb.worked.source? (.inr hapart)] at hsource
  have hload := Graph.World.load_eq_ok hsource
  rw [Source.load, if_neg hl] at hload
  dsimp only at hload
  exact (Source.Folder.read_eq_ok hload ((h.named id m hm).resolve_left hl).1).2

theorem recompile (h : s.Poised id) (hs : Sound False (fun _ ↦ True) s.world)
    (hl : ¬ModuleId.isRemote id) : ∃ b s₁, s.recompile id = (.ok b, s₁) ∧
      Reacts s id s₁ [id] (fresh [] [id] (s₁.graph.dependents id)) ∧
      s₁.world.Consistent id ∧ (∃ m, s₁.world.Has id m) ∧
      (∀ x m, x ≠ id → s.world.Has x m → s₁.world.Has x m) ∧
      (∀ x m, s₁.world.Has x m → s₁.world.Reaches id x ∨ s.world.Has x m) ∧
      (b = true ↔ s₁.hash? id ≠ s.hash? id) ∧ s₁.world = (s.world.compile id .default).2 := by
  obtain ⟨m₀, w', hok, -, hm₀, -, hupdating, hentry, hothers, hnew⟩ := h.compile hs hl
  have hsound := hupdating.stands.sound
  obtain ⟨b, hr, hchanged⟩ := recompile_of_compile hok hsound hm₀ hl
  refine ⟨b, { s with world := w' }, hr, ⟨hs, hupdating, hl, fun x hx ↦ ?_, ?_, fun x hx ↦ ?_⟩,
    hentry, ⟨m₀, hm₀⟩, hothers, hnew, hchanged, by rw [hok]⟩
  · -- a module that leads to the changed one is not one of those that it imports
    obtain ⟨_, ⟨m, hm, -⟩, -⟩ := TransGen.head'_iff.1 hx
    rcases hnew x m hm with hr | hm
    · exact absurd (TransGen.trans_right hr hx) (hupdating.acyclic id)
    · exact ⟨⟨m, hm⟩, h.named x m hm⟩
  · exact List.nodup_cons.2 ⟨fun hx ↦ (mem_fresh.1 hx).2.2 List.mem_cons_self,
      (hsound.nodup_dependents id).filter _⟩
  · exact .single ((hsound.mem_dependents hl).1 (mem_fresh.1 hx).1)

end Poised

theorem change_unchanged (hid : s.moduleIdOf? path = some id)
    (hf : s.world.disk.isFile (s.world.graph.folder.basePath id) = true)
    (hr : s.recompile id = (.ok false, s₁)) :
    (s.change path).1 = .ok [] ∧ (s.change path).2.world = s₁.world := by
  rw [change, hid]
  dsimp only
  rw [if_pos hf, changedModule, hr]
  refine ⟨rfl, ?_⟩
  dsimp only
  split <;> rfl

theorem change_changed (hid : s.moduleIdOf? path = some id)
    (hf : s.world.disk.isFile (s.world.graph.folder.basePath id) = true)
    (hr : s.recompile id = (.ok true, s₁)) :
    (s.change path).1 = .ok (id :: (propagate s₁.world.depthBound s₁ [id]
      (fresh [] [id] (s₁.graph.dependents id))).1) ∧
    (s.change path).2.world = (propagate s₁.world.depthBound s₁ [id]
      (fresh [] [id] (s₁.graph.dependents id))).2.world := by
  rw [change, hid]
  dsimp only
  rw [if_pos hf, changedModule, hr]
  refine ⟨rfl, ?_⟩
  dsimp only
  split <;> rfl

theorem hash?_of_world (h : s'.world = s.world) (x : String) : s'.hash? x = s.hash? x := by
  rw [hash?, hash?, graph, graph, h]

theorem isLocal_of_moduleIdOf? (h : s.moduleIdOf? path = some id) : ¬ModuleId.isRemote id := by
  rw [moduleIdOf?] at h
  split at h <;>
  · obtain ⟨components, -, h⟩ := Option.bind_eq_some_iff.1 h
    obtain ⟨names, -, h⟩ := Option.bind_eq_some_iff.1 h
    dsimp only at h
    split at h
    · rw [← Option.some_inj.1 h, ModuleId.rooted, ModuleId.isRemote_slash]
      exact Bool.false_ne_true
    · cases h

/-- Following a change reports modules that got another hash, each one once and that of the file first.
If all ways to the module are equally long then it reports them all, and leaves every module with the
hashes of what it imports. -/
theorem change_of_history (hist : Graph.History (fun _ _ ↦ True) (s.world :: ws))
    (hid : s.moduleIdOf? path = some id) (h : s.Poised id) : ∃ ids,
      (s.change path).1 = .ok ids ∧ ids.Nodup ∧
      (∀ x ∈ ids, (s.change path).2.hash? x ≠ s.hash? x) ∧
      ((s.change path).2.hash? id ≠ s.hash? id → ids.head? = some id) ∧
      ((∃ level, Leveled (s.world.compile id .default).2 id level) →
        (∀ x, (s.change path).2.world.Accords x) ∧
        ∀ x m, s.world.Has x m → (s.change path).2.hash? x ≠ s.hash? x → x ∈ ids) := by
  have hs : Sound False (fun _ ↦ True) s.world :=
    Graph.sound_of_history hist False.elim (fun _ _ _ _ _ ↦ trivial) _ List.mem_cons_self
  have hl := isLocal_of_moduleIdOf? hid
  obtain ⟨b, s₁, hr, hreacts, hentry, ⟨m₁, hm₁⟩, hothers, hnew, hchanged, hfirst⟩ :=
    h.recompile hs hl
  have hsound := hreacts.updating.stands.sound
  have hsame : ∀ x m, x ≠ id → s.world.Has x m → s₁.hash? x = s.hash? x := fun x m hne hm ↦
    hash?_congr hs hsound hm (hothers x m hne hm)
  -- what does not import the module has the hashes that its dependencies have
  have hmatches : ∀ x, (s₁.world.Imports x id → s₁.hash? id = s.hash? id) → s₁.world.Accords x := by
    intro x hx m hm
    rcases hnew x m hm with hreach | hm'
    · exact hentry x hreach m hm
    by_cases hne : x = id
    · subst hne
      exact hentry x .refl m hm
    refine (h.upToDate x).of_others hsound hm' hne hothers (fun hi target htarget ↦ ⟨m₁, hm₁, ?_⟩) m hm
    obtain ⟨m', hm', d, hd, he⟩ := hi
    exact ((hash?_eq_iff hs hsound htarget hm₁).1
      (hx ⟨m', hothers x m' hne hm', d, hd, he⟩)).resolve_left hl
  cases b with
  | false =>
    have hsame' : s₁.hash? id = s.hash? id := by
      by_contra hne
      exact Bool.false_ne_true (hchanged.2 hne)
    obtain ⟨hanswer, hworld⟩ := change_unchanged hid (h.isFile hs hl) hr
    have hhash := hash?_of_world hworld
    refine ⟨[], hanswer, List.nodup_nil, fun _ hx ↦ (List.not_mem_nil hx).elim,
      fun hne ↦ absurd ((hhash id).trans hsame') hne, fun _ ↦ ⟨fun x ↦ ?_, fun x m hm hne ↦ ?_⟩⟩
    · rw [hworld]
      exact hmatches x fun _ ↦ hsame'
    · rw [hhash] at hne
      by_cases hx : x = id
      · exact absurd hsame' (hx ▸ hne)
      · exact absurd (hsame x m hx hm) hne
  | true =>
    obtain ⟨hanswer, hworld⟩ := change_changed hid (h.isFile hs hl) hr
    have hhash := hash?_of_world hworld
    obtain ⟨hnodup, hall, hfinal, himproves⟩ := hreacts.propagate s₁.world.depthBound
    have hkept := hash?_congr hsound hfinal.stands.sound hm₁ (himproves.keeps id m₁ hentry hm₁)
    refine ⟨_, hanswer, List.nodup_cons.2 ⟨fun hx ↦ (hall id hx).1 List.mem_cons_self, hnodup⟩,
      fun x hx ↦ ?_, fun _ ↦ rfl, ?_⟩
    · rw [hhash]
      rcases List.mem_cons.1 hx with rfl | hx
      · rw [hkept]
        exact hchanged.1 rfl
      · exact (hall x hx).2
    · rintro ⟨level, hlevel⟩
      rw [← hfirst] at hlevel
      have hdependents : ∀ x ∈ fresh [] [id] (s₁.graph.dependents id), s₁.world.Imports x id :=
        fun x hx ↦ (hsound.mem_dependents hl).1 (mem_fresh.1 hx).1
      have hnext : ∀ x ∈ fresh [] [id] (s₁.graph.dependents id), level x = level id + 1 :=
        fun x hx ↦ hlevel x id (hdependents x hx) .refl
      have hdescends : Descends level id s₁ [id] (fresh [] [id] (s₁.graph.dependents id)) := by
        refine ⟨hlevel, ⟨List.pairwise_iff_forall_sublist.2 fun {x y} hs ↦ ?_,
          fun x hx y hy ↦ ?_, fun x hx y hy ↦ ?_⟩, fun x hx ↦ hmatches x fun hi ↦ absurd ?_ hx⟩
        · rw [hnext x (hs.subset List.mem_cons_self),
            hnext y (hs.subset (List.mem_cons_of_mem x List.mem_cons_self))]
        · rw [hnext x hx, hnext y hy]
          exact Nat.le_succ _
        · rw [List.mem_singleton.1 hx, hnext y hy]
          exact Nat.le_succ _
        · refine mem_fresh.2 ⟨(hsound.mem_dependents hl).2 hi, List.not_mem_nil, fun hx ↦ ?_⟩
          obtain rfl := List.mem_singleton.1 hx
          exact hreacts.updating.acyclic x (.single hi)
      have hknown : ∀ x, TransGen s₁.world.Imports x id → x ∈ s₁.world.knownIds := by
        intro x hx
        obtain ⟨_, ⟨m, hm, -⟩, -⟩ := TransGen.head'_iff.1 hx
        exact Graph.mem_knownIds_of_has hm
      have hfuel : s₁.world.knownIds.length ≤ s₁.world.depthBound + [id].length := by
        rw [World.depthBound, List.length_singleton]
        omega
      obtain ⟨haccords, hreported⟩ := hdescends.propagate hreacts
        (fun x hx ↦ List.mem_singleton.1 hx ▸ Graph.mem_knownIds_of_has hm₁) hknown hfuel
      refine ⟨hworld ▸ haccords, fun x m hm hne ↦ ?_⟩
      rw [hhash] at hne
      by_cases hx : x = id
      · exact hx ▸ List.mem_cons_self
      · refine List.mem_cons_of_mem id (hreported x m (hothers x m hx hm) fun he ↦ hne ?_)
        exact he.trans (hsame x m hx hm)

section Edited

open SiteCompiler.Graph (pairWorld pair contents)
open Disk (Grows)

variable {w : World}

/-- A world where the module that `pairWorld` imports has another source by now. -/
def edited (w : World) : World :=
  { w with disk := w.disk.put ["s", "b.js"] (.file "a".toUTF8) }

theorem grows_edited (hw : pairWorld.Worked w) : Grows (fun p c ↦ ["c"] <+: p ∨
    p = ["s", "b.js"] ∧ c = "a".toUTF8) pairWorld.disk (edited w).disk := by
  have hg := hw.disk.grows fun _ ↦ Graph.Keeps.writes_below
  have hentry : pairWorld.disk.entry? ["s", "b.js"] = some (.file "".toUTF8) := rfl
  obtain ⟨c, hc, -⟩ := hg.file hentry
  refine (hg.mono fun p c hp ↦ .inl hp).trans ((Disk.grows_put_file _ ?_).mono ?_)
  · rw [hc]
    exact nofun
  · rintro p c ⟨rfl, rfl⟩
    exact .inr ⟨rfl, rfl⟩

theorem source_edited (hw : pairWorld.Worked w) : (∀ x, x = "/a.js" ∨ x = "/b.js" →
    (edited w).Separate x) ∧ (edited w).source? "/a.js" = w.source? "/a.js" ∧
    (edited w).source? "/b.js" = some (.ofText "a" .js) := by
  have hg := grows_edited hw
  have hfolder : (edited w).graph.folder = pairWorld.graph.folder := hw.folder
  have hplace : (edited w).storePlace = ["c"] := by
    rw [World.storePlace, hg.workingDirectory, show (edited w).graph.store = _ from hw.store]
    rfl
  have hla : (edited w).disk.locate ((edited w).graph.folder.basePath "/a.js") = .ok ["s", "a.js"] := by
    rw [hfolder]
    exact hg.locate rfl
  have hlb : (edited w).disk.locate ((edited w).graph.folder.basePath "/b.js") = .ok ["s", "b.js"] := by
    rw [hfolder]
    exact hg.locate rfl
  have hea : (edited w).disk.entry? ["s", "a.js"] = some (.file "import\"./b.js\"".toUTF8) := by
    have hentry : pairWorld.disk.entry? ["s", "a.js"] = some (.file "import\"./b.js\"".toUTF8) := rfl
    obtain ⟨c, hc, he⟩ := hg.file hentry
    rw [hc, he.resolve_right]
    rintro (hp | ⟨hp, -⟩) <;> exact absurd hp (by decide)
  have heb : (edited w).disk.entry? ["s", "b.js"] = some (.file "a".toUTF8) :=
    Disk.entry?_put_self (by decide)
  refine ⟨?_, ?_, ?_⟩
  · rintro x (rfl | rfl)
    · exact Graph.separate_of_file (by decide) hla hea (by rw [hplace]; decide)
    · exact Graph.separate_of_file (by decide) hlb heb (by rw [hplace]; decide)
  · have hread := Source.Folder.read_of_text (by decide) hla hea (by rw [hfolder]; decide)
    rw [hw.source? (.inr (Graph.separate_pairWorld (.inl rfl))), World.source?, Source.load,
      if_neg (by decide)]
    rw [hread, hfolder]
    rfl
  · have hread := Source.Folder.read_of_text (by decide) hlb heb (by rw [hfolder]; decide)
    rw [World.source?, Source.load, if_neg (by decide)]
    rw [hread, hfolder]
    rfl

theorem template_a : (Script.template? .js "a").all (fun template ↦ template.all fun
    | .specifier _ => false
    | .text _ => true) = true := by
  decide +kernel

theorem dependencies_a : (Compiled.compile (pairWorld.graph.linkage pairWorld.disk "/b.js") .js "a"
    false).toOption.map (·.dependencies) = some [] := by
  decide +kernel

theorem compiles_edited (hw : pairWorld.Worked w) :
    ∃ c, (edited w).Compiles "/b.js" (.ofText "a" .js) c ∧ c.dependencies = [] := by
  obtain ⟨c, hc, hdeps⟩ := Option.map_eq_some_iff.1 dependencies_a
  refine ⟨c, ⟨(source_edited hw).2.2, ?_⟩, hdeps⟩
  have hagrees : Linkage.Agrees (pairWorld.graph.linkage pairWorld.disk "/b.js")
      ((edited w).graph.linkage (edited w).disk "/b.js") .js "a" := by
    refine ⟨rfl, fun template ht value hv ↦ ?_⟩
    have hall := template_a
    rw [ht] at hall
    exact absurd (List.all_eq_true.1 hall _ hv) Bool.false_ne_true
  have hsettings : (edited w).graph.settings = pairWorld.graph.settings := hw.settings
  rw [hsettings]
  refine (Compiled.compile_eq_of_agrees hagrees _).trans ?_
  cases hx : Compiled.compile (pairWorld.graph.linkage pairWorld.disk "/b.js") .js "a" false with
  | error cause => rw [hx] at hc; cases hc
  | ok c' =>
    rw [hx] at hc
    exact hx.trans (congrArg Except.ok (Option.some_inj.1 hc))

theorem has_of_pair (hpair : contents w.graph = pair) (hm : w.Has x m) :
    x = "/a.js" ∧ m.dependencies.map (·.path) = ["/b.js"] ∨ x = "/b.js" ∧ m.dependencies = [] := by
  have hmem := Graph.mem_contents hm
  rw [hpair] at hmem
  rcases List.mem_cons.1 hmem with he | he
  · obtain ⟨hx, he⟩ := Prod.mk.inj he
    refine .inl ⟨hx, ?_⟩
    rw [(Prod.mk.inj he).2]
    rfl
  · obtain ⟨hx, he⟩ := Prod.mk.inj (List.mem_singleton.1 he)
    exact .inr ⟨hx, (Prod.mk.inj he).2⟩

theorem compile_edited (hw : pairWorld.Worked w) (hpair : contents w.graph = pair)
    (hs : Sound False (fun _ ↦ True) (edited w)) : ∃ m w',
      (edited w).compile "/b.js" .default = (.ok m, w') ∧
      (∀ x n, w'.Has x n → x = "/a.js" ∨ x = "/b.js") ∧
      ∀ x y, w'.Imports x y → x = "/a.js" ∧ y = "/b.js" := by
  obtain ⟨c, hc, hdeps⟩ := compiles_edited hw
  have hproper : ModuleId.Proper "/b.js" := .inr (by decide)
  obtain ⟨m, changed, u, hp⟩ := hc.exists_prepare fun path ↦
    Graph.isHash_knownHash hs (hs.known_previous False.elim hproper) path
  have hm : m.dependencies = [] := by
    cases Graph.Prepares.of_eq hp with
    | @compiled s m ho ht =>
      obtain ⟨c', _, _, hc', -, rfl⟩ := Graph.transpile_eq_ok ht
      obtain rfl := Option.some_inj.1 (hc.source.symm.trans (Graph.source?_of_obtain rfl ho))
      obtain rfl := Except.ok.inj (hc.compiled.symm.trans hc')
      change c.dependencies.map _ = []
      rw [hdeps]
      rfl
    | @recorded m _ hprevious =>
      obtain ⟨n, hn⟩ : ∃ n, w.Has "/b.js" n :=
        Graph.exists_of_mem_contents (by rw [hpair]; decide)
      have hl : ¬ModuleId.isRemote "/b.js" := by decide
      have hn' : (edited w).graph.modules.find? "/b.js" = some n :=
        hs.module?_of_has (w := edited w) hn hl
      rw [World.previous?, hn'] at hprevious
      obtain rfl : n = m := Option.some_inj.1 hprevious
      exact ((has_of_pair hpair hn).resolve_left fun h ↦ absurd h.1 (by decide)).2
  have hr : (edited w).graph.remote.find? "/b.js" = none :=
    Option.eq_none_iff_forall_ne_some.2 fun n hn ↦ absurd (hs.remote _ n hn).2.2 (by decide)
  obtain ⟨depth, hdepth⟩ := (edited w).exists_depthBound
  obtain ⟨r, hvisit, hworld, -⟩ := Graph.Run.exists_visit_of_leaf (depth + 3)
    (r := .start (edited w)) (o := .default) hr List.not_mem_nil hp (by rw [hm]; rfl)
  have hc : (edited w).compile "/b.js" .default = (.ok m, r.world.persistAliases r.visited) := by
    rw [World.compile, Graph.entryId_self (by decide) (.inr ⟨by decide, "b.js", by decide⟩)]
    dsimp only
    rw [hdepth, hvisit]
  have hsound := hs.compile False.elim "/b.js" .default fun _ _ _ ↦ trivial
  rw [hc] at hsound
  have hall : ∀ x n, (r.world.persistAliases r.visited).Has x n →
      x = "/a.js" ∧ n.dependencies.map (·.path) = ["/b.js"] ∨ x = "/b.js" ∧ n.dependencies = [] := by
    intro x n hn
    have hsame := World.sameGraph_persistAliases r.world r.visited
    by_cases hx : m.id = x
    · subst hx
      have hself : (r.world.persistAliases r.visited).Has m.id m :=
        hsame.has.2 (hworld ▸ u.has_finish_self m changed)
      exact .inr ⟨(Graph.Prepares.of_eq hp).id_eq, hsound.has_unique hn hself ▸ hm⟩
    · rw [hsame.has, hworld, u.has_finish_of_ne changed hx, (World.prepare_eq hp).1.has] at hn
      exact has_of_pair hpair hn
  refine ⟨m, _, hc, fun x n hn ↦ (hall x n hn).imp And.left And.left, ?_⟩
  rintro x _ ⟨n, hn, d, hd, rfl⟩
  rcases hall x n hn with ⟨rfl, he⟩ | ⟨-, he⟩
  · exact ⟨rfl, List.mem_singleton.1 (he ▸ List.mem_map_of_mem hd)⟩
  · rw [he] at hd
    cases hd

theorem poised_edited (hw : pairWorld.Worked w) (hpair : contents w.graph = pair)
    (hset : w.Settled fun x ↦ x = "/a.js" ∨ x = "/b.js")
    (hs : Sound False (fun _ ↦ True) (edited w)) : (ofWorld (edited w)).Poised "/b.js" := by
  obtain ⟨hsep, hsource, -⟩ := source_edited hw
  obtain ⟨m', w', hc, hhas, himports⟩ := compile_edited hw hpair hs
  have hids : ∀ {x m}, w.Has x m → x = "/a.js" ∨ x = "/b.js" := fun hm ↦
    (has_of_pair hpair hm).imp And.left And.left
  have hl : ∀ x, x = "/a.js" ∨ x = "/b.js" → ¬ModuleId.isRemote x := by
    rintro x (rfl | rfl) <;> decide
  have hlocal : ∀ {x m}, (edited w).Has x m → ∃ s, w.source? x = some s ∧ m.sourceHash = s.hash ∧
      ∀ d ∈ m.dependencies, ∃ target, w.Has d.path target ∧ d.hash = target.hash := by
    intro x m hm
    have hx := hids hm
    have hm := hs.module?_of_has hm (hl x hx)
    rcases hset x hx with ⟨n, hn⟩ | ⟨n, hn, ⟨s, hs', he⟩, hd⟩
    · exact absurd (hs.remote x n hn).2.2 (hl x hx)
    · obtain rfl : n = m := Option.some_inj.1 (hn.symm.trans hm)
      exact ⟨s, hs', he, fun d hd' ↦ (hd d hd').2⟩
  refine ⟨?_, fun x m hm ↦ .inr ?_, fun x m hne hm ↦ ?_, fun x m hm d hd ↦ ?_, ⟨m', by
    rw [show (ofWorld (edited w)).world = edited w from rfl, hc]⟩, fun x hx ↦ ?_, fun x n hn ↦ ?_⟩
  · exact Graph.exists_of_mem_contents (w := w) (by rw [hpair]; decide)
  · rcases hids hm with rfl | rfl
    · exact ⟨by decide, "a.js", by decide⟩
    · exact ⟨by decide, "b.js", by decide⟩
  · obtain rfl := (hids (.inl hm)).resolve_right hne
    obtain ⟨s, hs', he, -⟩ := hlocal (.inl hm)
    exact ⟨s, hsource.trans hs', he⟩
  · obtain ⟨s, -, -, hd'⟩ := hlocal hm
    exact hd' d hd
  · rw [show (ofWorld (edited w)).world = edited w from rfl, hc] at hx
    obtain ⟨y, hxy, hyx⟩ := TransGen.head'_iff.1 hx
    obtain ⟨rfl, rfl⟩ := himports x y hxy
    rcases hyx.cases_head with he | ⟨z, hz, -⟩
    · exact absurd he (by decide)
    · exact absurd (himports _ z hz).1 (by decide)
  · rw [show (ofWorld (edited w)).world = edited w from rfl, hc] at hn
    exact .inr (hsep x (hhas x n hn))

theorem admits_edited (hw : pairWorld.Worked w) : w.Admits (.edit (edited w).disk w.network) := by
  have hplace : w.storePlace = ["c"] := by
    rw [World.storePlace, hw.store, (hw.disk.grows fun _ ↦ Graph.Keeps.writes_below).workingDirectory]
    rfl
  refine ⟨rfl, fun place hp ↦ Disk.entry?_put_of_ne fun he ↦ ?_⟩
  rw [hplace, he] at hp
  exact absurd hp (by decide)

theorem exists_compiled_pairWorld : ∃ w, w = (pairWorld.compile "a.js" .default).2 ∧
    contents w.graph = pair ∧ pairWorld.Worked w ∧
    (w.Settled fun x ↦ x = "/a.js" ∨ x = "/b.js") ∧
    Graph.History (fun _ _ ↦ True) [w, pairWorld] := by
  have hist : Graph.History (fun _ _ ↦ True)
      [pairWorld.react (.compile "a.js" .default), pairWorld] :=
    .step (.start Graph.fresh_pairWorld) (pairWorld.admits_compile "a.js" .default) trivial
  rw [World.react_compile] at hist
  refine ⟨_, rfl, ?_, ?_, Graph.settled_pairWorld, hist⟩
  · obtain ⟨_, w, hok, -, hpair⟩ := Graph.exists_compile_pairWorld
    rw [hok]
    exact hpair
  · exact World.worked_compile (F := False) (T := fun _ ↦ True)
      (Graph.sound_of_fresh Graph.fresh_pairWorld) "a.js" .default

theorem change_edited : ∃ w ids, w = (pairWorld.compile "a.js" .default).2 ∧
    ((ofWorld (edited w)).change "b.js").1 = .ok ids ∧ ids.Nodup ∧
    (∀ x ∈ ids, ((ofWorld (edited w)).change "b.js").2.hash? x ≠ (ofWorld (edited w)).hash? x) ∧
    (∀ x, ((ofWorld (edited w)).change "b.js").2.world.Accords x) ∧
    ∀ x m, w.Has x m →
      ((ofWorld (edited w)).change "b.js").2.hash? x ≠ (ofWorld (edited w)).hash? x → x ∈ ids := by
  obtain ⟨w, hw', hpair, hw, hset, hist⟩ := exists_compiled_pairWorld
  have hist : Graph.History (fun _ _ ↦ True) [edited w, w, pairWorld] :=
    hist.step (admits_edited hw) trivial
  have hid : (ofWorld (edited w)).moduleIdOf? "b.js" = some "/b.js" := by
    rw [moduleIdOf?, if_neg (by decide)]
    decide
  have hs : Sound False (fun _ ↦ True) (edited w) :=
    Graph.sound_of_history hist False.elim (fun _ _ _ _ _ ↦ trivial) _ List.mem_cons_self
  obtain ⟨ids, hanswer, hnodup, hall, -, hleveled⟩ := change_of_history
    (s := ofWorld (edited w)) hist hid (poised_edited hw hpair hset hs)
  refine ⟨w, ids, hw', hanswer, hnodup, hall, hleveled ⟨fun x ↦ if x = "/a.js" then 1 else 0, ?_⟩⟩
  intro x y hi _
  obtain ⟨m, w', hc, -, himports⟩ := compile_edited hw hpair hs
  rw [show (ofWorld (edited w)).world = edited w from rfl, hc] at hi
  obtain ⟨rfl, rfl⟩ := himports x y hi
  rfl

end Edited

end Change

end Site

end SiteCompiler
