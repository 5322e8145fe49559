import SiteCompiler.Proofs.Graph.Idle
import SiteCompiler.Proofs.Graph.KnownIds

namespace SiteCompiler.Graph

open Relation (ReflTransGen TransGen)

variable {F : Prop} {T : String → Prop} {R S : String → Prop} {w w' v : World} {r r' : Run}
  {text id x : String} {m m₀ m' : Module} {t : Task} {out : Outcome}

section Tables

theorem Sound.module?_of_has (h : Sound F T w) (hm : w.Has id m) (hl : ¬ModuleId.isRemote id) :
    w.graph.module? id = some m :=
  hm.resolve_right fun hr ↦ hl (h.remote id m hr).2.2

theorem Sound.remoteModule?_of_has (h : Sound F T w) (hm : w.Has id m) (hr : ModuleId.isRemote id) :
    w.graph.remoteModule? id = some m :=
  hm.resolve_left fun hl ↦ (h.modules id m hl).2.2 hr

end Tables

/-- What a call that ends with a module does. All that the module reaches has been looked after, but
for remote modules that were there before; the rest stays. -/
structure World.Brings (w : World) (id : String) (w' : World) : Prop where
  sound : Sound False (fun _ ↦ True) w'
  worked : w.Worked w'
  accounts : ∀ x m, w'.Reaches id x → w'.Has x m →
    w.graph.remoteModule? x = some m ∨ ∀ d ∈ m.dependencies, w'.Accounts x d
  sources : ∀ x m, w'.Reaches id x → w'.graph.module? x = some m → w.Separate x →
    ∃ s, w'.source? x = some s ∧ m.sourceHash = s.hash
  rest : ∀ x, ¬w'.Reaches id x → ∀ m, w'.Has x m ↔ w.Has x m
  has : ∀ x m, w.Has x m → ∃ m', w'.Has x m'
  remote : ∀ x m, w.graph.remoteModule? x = some m → w'.graph.remoteModule? x = some m

theorem brings_of_compile (hs : Sound False (fun _ ↦ True) w)
    (hok : w.compile text .default = (.ok m₀, w')) : w.Brings m₀.id w' := by
  obtain ⟨r, hy, hst, he, hw', ht, hcovers, -⟩ := traversal_of_compile hok
  have hsound := hs.compile False.elim text .default fun _ _ _ ↦ trivial
  have hworked := World.worked_compile hs text .default
  rw [hok] at hsound hworked
  have hsame : World.SameGraph r.world w' := hw' ▸ World.sameGraph_persistAliases r.world r.visited
  have hreaches := reaches_of_mem_visited hy
  rw [← hw'] at hreaches
  have hnil : ∀ {id}, ∀ m ∈ r.stack, m.id ≠ id := by
    rw [hst]
    exact fun _ h ↦ by cases h
  have hframe := hy.frame.1
  have hchecked := hy.checks (S := fun x ↦ ModuleId.isRemote x ∨ w.Separate x) (fun _ h ↦ h) hs.run
    (.refl w) (proper_entryId he) ⟨rfl, rfl⟩ ⟨(fun _ hm ↦ by cases hm), fun _ hx ↦ by cases hx⟩
    fun _ h ↦ Outcome.noConfusion h
  have hunvisited : ∀ x, x ∉ r.visited → ∀ m, w'.Has x m ↔ w.Has x m := by
    intro x hx m
    rw [hsame.has, World.Has, World.Has, module?, module?, remoteModule?, remoteModule?,
      hframe.modules x (.inr hx), hframe.remote x (.inr hx)]
    rfl
  have hvisited : ∀ {x}, w'.Reaches m₀.id x → x ∈ r.visited ∨ ModuleId.isRemote x :=
    ht.visited_of_reaches hsame hst hsound hcovers
  refine ⟨hsound, hworked, fun x m hx hm ↦ ?_, fun x m hx hm hsep ↦ ?_,
    fun x hx ↦ hunvisited x fun hv ↦ hx (hreaches x hv), fun x m hm ↦ ?_, fun x m hm ↦ ?_⟩
  · by_cases hv : x ∈ r.visited
    · obtain ⟨m', hm', hall⟩ := ht.finished x hv hnil
      obtain rfl := hsound.has_unique hm (hsame.has.2 hm')
      exact .inr fun d hd ↦ (hall d hd).2
    · exact .inl (hs.remoteModule?_of_has ((hunvisited x hv m).1 hm) ((hvisited hx).resolve_left hv))
  · have hl := (hsound.modules x m hm).2.2
    obtain ⟨m', hm', hc⟩ := hchecked.finished x ((hvisited hx).resolve_right hl) hnil
    obtain rfl := hsound.has_unique (.inl hm) (hsame.has.2 hm')
    obtain rfl := ModuleTable.id_of_find? hm
    obtain ⟨s, hsource, hhash⟩ := (hc (.inr hsep)).resolve_left fun hr ↦ hl hr.1
    exact ⟨s, (hworked.source? (.inr hsep)).trans hsource, hhash⟩
  · by_cases hv : x ∈ r.visited
    · obtain ⟨m', hm', -⟩ := ht.finished x hv hnil
      exact ⟨m', hsame.has.2 hm'⟩
    · exact ⟨m, (hunvisited x hv m).2 hm⟩
  · rw [remoteModule?, hsame.remote]
    exact hframe.vendored x m hm

structure Renewed (m m' : Module) : Prop where
  sourceHash : m'.sourceHash = m.sourceHash
  paths : m'.dependencies.map (·.path) = m.dependencies.map (·.path)

/-- Certain modules of a world are registered in another one, with the same sources and imports. -/
def World.Carries (w : World) (S : String → Prop) (v : World) : Prop :=
  ∀ x m, S x → w.Has x m → ∃ m', v.Has x m' ∧ Renewed m m'

theorem World.Carries.sameModules (h : w.Carries S v) (hs : World.SameModules v w') :
    w.Carries S w' := fun x m hx hm ↦
  (h x m hx hm).imp fun _ h ↦ ⟨hs.has.2 h.1, h.2⟩

theorem World.Carries.imports (h : w.Carries S v) {a b : String} (ha : S a) (hi : w.Imports a b) :
    v.Imports a b := by
  obtain ⟨m, hm, d, hd, rfl⟩ := hi
  obtain ⟨m', hm', hr⟩ := h a m ha hm
  obtain ⟨d', hd', he⟩ := List.mem_map.1 (hr.paths ▸ List.mem_map_of_mem (f := Dependency.path) hd)
  exact ⟨m', hm', d', hd', he⟩

def World.Dated (w : World) (S : String → Prop) : Prop :=
  ∀ x m, S x → w.graph.module? x = some m → ∃ s, w.source? x = some s ∧ m.sourceHash = s.hash

section Carrying

variable {u world : World} {o : Options} {changed changed' : Bool}

theorem World.Dated.prepare (h : w.Dated S) (hs : Sound F T w) (hx : S id)
    (hsep : ModuleId.isRemote id ∨ w.Separate id) (hw : w.Worked v) (hv : Sound F T v)
    (hc : w.Carries S v) (hm : w.Has id m) (hr : v.graph.remote.find? id = none)
    (ho : o.source? = none) : ∃ n world, v.prepare id o = (.ok (n, false), world) ∧ Renewed m n := by
  obtain ⟨n, hn, hrenewed⟩ := hc id m hx hm
  have hn : v.graph.module? id = some n := hn.resolve_right fun hn ↦ by
    rw [remoteModule?, hr] at hn
    cases hn
  obtain ⟨s, hsource, hhash⟩ := h id m hx (hs.module?_of_has hm (hv.modules id n hn).2.2)
  have hprevious : v.previous? id = some n := by
    rw [World.previous?, show v.graph.modules.find? id = some n from hn]
    rfl
  obtain ⟨world, hp⟩ := World.prepare_of_source? hprevious ho ((hw.source? hsep).trans hsource)
    (hrenewed.sourceHash.trans hhash)
  exact ⟨_, world, hp, hrenewed.sourceHash, hrenewed.paths⟩

theorem World.Carries.finish (h : w.Carries S u) (hm : S m'.id → ∀ m, w.Has m'.id m → Renewed m m')
    (changed : Bool) : w.Carries S (u.finish m' changed) := by
  intro x m hx hmx
  by_cases he : m'.id = x
  · subst he
    exact ⟨m', u.has_finish_self m' changed, hm hx m hmx⟩
  · obtain ⟨n, hn, hr⟩ := h x m hx hmx
    exact ⟨n, (u.has_finish_of_ne changed he n).2 hn, hr⟩

theorem Yields.carries (hS : w.Dated S) (hw : Sound False (fun _ ↦ True) w)
    (hsep : ∀ x m, S x → w.Has x m → ModuleId.isRemote x ∨ w.Separate x) (h : Yields r t out r')
    (hs : r.Sound False fun _ ↦ True) (hv : w.Worked r.world) (ht : t.Proper)
    (hto : t.Within Options.Plain) (hr : w.Carries S r.world) : w.Carries S r'.world := by
  have hall : ∀ w : World, w.Each fun _ ↦ True := fun _ _ _ _ ↦ trivial
  have hprepared : ∀ {r : Run} {id : String} {o : Options} {m : Module} {changed : Bool}
      {world : World}, r.Sound False (fun _ ↦ True) → w.Worked r.world → o.Plain →
      w.Carries S r.world → r.world.graph.remote.find? id = none →
      r.world.prepare id o = (.ok (m, changed), world) → S id → ∀ m₁, w.Has id m₁ → Renewed m₁ m := by
    intro r id o m changed world hs hv ho hr hm hp hx m₁ hm₁
    obtain ⟨n, world', hp', hrenewed⟩ := hS.prepare hw hx (hsep id m₁ hx hm₁) hv hs.world hr hm₁ hm ho.1
    obtain ⟨rfl, rfl⟩ := Prod.mk.inj (Except.ok.inj (Prod.mk.inj (hp.symm.trans hp')).1)
    exact hrenewed
  induction h with
  | deep => exact hr
  | vendored => exact hr
  | again => exact hr
  | lost => exact hr
  | unprepared _ _ hp => exact hr.sameModules (World.prepare_eq hp).1
  | leaf hm _ hp _ =>
    refine (hr.sameModules (World.prepare_eq hp).1).finish ?_ _
    rw [(Prepares.of_eq hp).id_eq]
    exact hprepared hs hv hto hr hm hp
  | dropped _ _ hp _ _ ih =>
    obtain ⟨-, hs', ht'⟩ := hs.inside False.elim ht hp
    exact ih hs' (hv.trans (World.worked_prepare hp)) ht' trivial
      (hr.sameModules (World.prepare_eq hp).1)
  | kept hm _ hp _ _ ih =>
    obtain ⟨-, hs', ht'⟩ := hs.inside False.elim ht hp
    refine (ih hs' (hv.trans (World.worked_prepare hp)) ht' trivial
      (hr.sameModules (World.prepare_eq hp).1)).finish ?_ _
    rw [(Prepares.of_eq hp).id_eq]
    exact hprepared hs hv hto hr hm hp
  | broken _ _ hp _ _ _ ih =>
    obtain ⟨-, hs', ht'⟩ := hs.inside False.elim ht hp
    exact ih hs' (hv.trans (World.worked_prepare hp)) ht' trivial
      (hr.sameModules (World.prepare_eq hp).1)
  | relinked hm _ hp _ hb hl ih =>
    obtain ⟨-, hs', ht'⟩ := hs.inside False.elim ht hp
    refine (ih hs' (hv.trans (World.worked_prepare hp)) ht' trivial
      (hr.sameModules (World.prepare_eq hp).1)).finish ?_ _
    rw [(relink_id hl).1, (Prepares.of_eq hp).id_eq]
    intro hx m₁ hm₁
    obtain ⟨hsource, hpaths⟩ := hprepared hs hv hto hr hm hp hx m₁ hm₁
    exact ⟨(relink_source hl).2.1.trans hsource, by rw [relink_dependencies hl, hb.paths, hpaths]⟩
  | done => exact hr
  | failed _ ih => exact ih hs hv (ht _ List.mem_cons_self).2 ⟨rfl, rfl⟩ hr
  | cut hf _ ih ih' =>
    obtain ⟨hframe, hst⟩ := hf.frame
    have hvisit := (ht _ List.mem_cons_self).2
    have hs' := hs.after hframe (hst fun _ h ↦ Outcome.noConfusion h)
      (hf.sound False.elim hs hvisit (hall _)).1
    exact ih' hs' (hv.trans (hf.worked hs hvisit)) (fun d hd ↦ ht d (List.mem_cons_of_mem _ hd))
      trivial (ih hs hv hvisit ⟨rfl, rfl⟩ hr)
  | next hf _ ih ih' =>
    obtain ⟨hframe, hst⟩ := hf.frame
    have hvisit := (ht _ List.mem_cons_self).2
    have hs' := hs.after hframe (hst fun _ h ↦ Outcome.noConfusion h)
      (hf.sound False.elim hs hvisit (hall _)).1
    exact ih' hs' (hv.trans (hf.worked hs hvisit)) (fun d hd ↦ ht d (List.mem_cons_of_mem _ hd))
      trivial (ih hs hv hvisit ⟨rfl, rfl⟩ hr)

/-- A call that ends with a module leaves sources and imports of what is registered for its source. -/
theorem carries_of_compile (hS : w.Dated S) (hs : Sound False (fun _ ↦ True) w)
    (hsep : ∀ x m, S x → w.Has x m → ModuleId.isRemote x ∨ w.Separate x)
    (hok : w.compile text .default = (.ok m₀, w')) : w.Carries S w' := by
  obtain ⟨r, hy, -, he, rfl, -⟩ := traversal_of_compile hok
  intro x m hx hm
  obtain ⟨m', hm', hr⟩ := hy.carries hS hs hsep hs.run (.refl w) (proper_entryId he) ⟨rfl, rfl⟩
    (fun _ n _ hn ↦ ⟨n, hn, rfl, rfl⟩) x m hx hm
  exact ⟨m', (World.sameGraph_persistAliases r.world r.visited).has.2 hm', hr⟩

end Carrying

section Settled

/-- Settled modules that are registered as they were are still settled if they have their sources. -/
theorem World.Settled.of_sources (h : w.Settled R) (hs : Sound F T w) (hv : Sound F T v)
    (hsource : ∀ x, R x → ¬ModuleId.isRemote x → v.source? x = w.source? x)
    (hk : ∀ x m, R x → w.Has x m → v.Has x m) : v.Settled R := by
  intro x hx
  rcases h x hx with ⟨m, hm⟩ | ⟨m, hm, ⟨s, hs', he⟩, hd⟩
  · exact .inl ⟨m, hv.remoteModule?_of_has (hk x m hx (.inr hm)) (hs.remote x m hm).2.2⟩
  · have hl := (hs.modules x m hm).2.2
    refine .inr ⟨m, hv.module?_of_has (hk x m hx (.inl hm)) hl,
      ⟨s, (hsource x hx hl).trans hs', he⟩, fun d hd' ↦ ?_⟩
    obtain ⟨hR, target, htarget, hhash⟩ := hd d hd'
    exact ⟨hR, target, hk _ _ hR htarget, hhash⟩

theorem World.Settled.congr (h : w.Settled R) (hs : Sound F T w) (hw : w.Worked v)
    (hv : Sound F T v) (hsep : ∀ x, R x → ModuleId.isRemote x ∨ w.Separate x)
    (hk : ∀ x m, R x → w.Has x m → v.Has x m) : v.Settled R :=
  h.of_sources hs hv (fun x hx _ ↦ hw.source? (hsep x hx)) hk

theorem World.Settled.or (h : w.Settled R) (h' : w.Settled R') :
    w.Settled fun x ↦ R x ∨ R' x := by
  rintro x (hx | hx)
  · exact (h x hx).imp_right fun ⟨m, hm, hs, hd⟩ ↦
      ⟨m, hm, hs, fun d hd' ↦ (hd d hd').imp_left .inl⟩
  · exact (h' x hx).imp_right fun ⟨m, hm, hs, hd⟩ ↦
      ⟨m, hm, hs, fun d hd' ↦ (hd d hd').imp_left .inr⟩

theorem Yields.keeps_settled (hR : w.Settled R) (hw : Sound False (fun _ ↦ True) w)
    (hsep : ∀ x, R x → ModuleId.isRemote x ∨ w.Separate x) (h : Yields r t out r')
    (hs : r.Sound False fun _ ↦ True) (hv : w.Worked r.world) (ht : t.Proper)
    (hto : t.Within (· = .default)) (hst : ∀ m ∈ r.stack, ¬R m.id)
    (hr : ∀ x m, R x → w.Has x m → r.world.Has x m) :
    ∀ x m, R x → w.Has x m → r'.world.Has x m := by
  have hall : ∀ w : World, w.Each fun _ ↦ True := fun _ _ _ _ ↦ trivial
  -- a settled module is visited with all that it imports, and nothing is done
  have hrests : ∀ {r : Run} {id : String} {o : Options} {out : Outcome} {r' : Run},
      Yields r (.visit id o) out r' → r.Sound False (fun _ ↦ True) → w.Worked r.world →
      o = .default → (∀ m ∈ r.stack, ¬R m.id) → (∀ x m, R x → w.Has x m → r.world.Has x m) →
      R id → ∀ x m, R x → w.Has x m → r'.world.Has x m := by
    rintro r id o out r' h hs hv rfl hst hr hid x m hx hm
    have hset := hR.congr hw hv hs.world hsep hr
    obtain ⟨final, hfinal⟩ := hs.world.exists_final
    have hidled := (h.idles (hset.upkeep hfinal) ⟨hset.standing.stays hs.world hfinal,
      fun m hm hR ↦ absurd hR (hst m hm), ⟨hid, rfl⟩, fun _ hv ↦ hv⟩).1
    exact hidled.idles.keeps x m (hr x m hx hm)
  have hfinish : ∀ {u : World} {m' : Module} (changed : Bool), ¬R m'.id →
      (∀ x m, R x → w.Has x m → u.Has x m) →
      ∀ x m, R x → w.Has x m → (u.finish m' changed).Has x m := by
    intro u m' changed hid hu x m hx hm
    exact (u.has_finish_of_ne changed (fun he ↦ hid (he ▸ hx)) m).2 (hu x m hx hm)
  induction h with
  | deep => exact hr
  | vendored => exact hr
  | again => exact hr
  | lost => exact hr
  | unprepared _ _ hp => exact fun x m hx hm ↦ (World.prepare_eq hp).1.has.2 (hr x m hx hm)
  | @leaf r id o m changed world hm hv' hp ha =>
    by_cases hid : R id
    · exact hrests (.leaf hm hv' hp ha) hs hv hto hst hr hid
    · refine hfinish changed ((Prepares.of_eq hp).id_eq ▸ hid) fun x n hx hn ↦ ?_
      exact (World.prepare_eq hp).1.has.2 (hr x n hx hn)
  | @dropped r inner id o m changed world stop hm hv' hp ha hb ih =>
    by_cases hid : R id
    · exact hrests (.dropped hm hv' hp ha hb) hs hv hto hst hr hid
    · obtain ⟨-, hs', ht'⟩ := hs.inside False.elim ht hp
      exact ih hs' (hv.trans (World.worked_prepare hp)) ht' trivial
        (List.forall_mem_cons.2 ⟨(Prepares.of_eq hp).id_eq ▸ hid, hst⟩)
        fun x n hx hn ↦ (World.prepare_eq hp).1.has.2 (hr x n hx hn)
  | @kept r inner id o m changed world ds hm hv' hp ha hb ih =>
    by_cases hid : R id
    · exact hrests (.kept hm hv' hp ha hb) hs hv hto hst hr hid
    · obtain ⟨-, hs', ht'⟩ := hs.inside False.elim ht hp
      have hname := (Prepares.of_eq hp).id_eq
      exact hfinish changed (hname ▸ hid) (ih hs' (hv.trans (World.worked_prepare hp)) ht' trivial
        (List.forall_mem_cons.2 ⟨hname ▸ hid, hst⟩)
        fun x n hx hn ↦ (World.prepare_eq hp).1.has.2 (hr x n hx hn))
  | @broken r inner id o m changed world ds stop hm hv' hp ha hb hl ih =>
    by_cases hid : R id
    · exact hrests (.broken hm hv' hp ha hb hl) hs hv hto hst hr hid
    · obtain ⟨-, hs', ht'⟩ := hs.inside False.elim ht hp
      exact ih hs' (hv.trans (World.worked_prepare hp)) ht' trivial
        (List.forall_mem_cons.2 ⟨(Prepares.of_eq hp).id_eq ▸ hid, hst⟩)
        fun x n hx hn ↦ (World.prepare_eq hp).1.has.2 (hr x n hx hn)
  | @relinked r inner id o m m' changed world ds hm hv' hp ha hb hl ih =>
    by_cases hid : R id
    · exact hrests (.relinked hm hv' hp ha hb hl) hs hv hto hst hr hid
    · obtain ⟨-, hs', ht'⟩ := hs.inside False.elim ht hp
      have hname := (Prepares.of_eq hp).id_eq
      exact hfinish true ((relink_id hl).1.trans hname ▸ hid)
        (ih hs' (hv.trans (World.worked_prepare hp)) ht' trivial
          (List.forall_mem_cons.2 ⟨hname ▸ hid, hst⟩)
          fun x n hx hn ↦ (World.prepare_eq hp).1.has.2 (hr x n hx hn))
  | done => exact hr
  | failed _ ih => exact ih hs hv (ht _ List.mem_cons_self).2 rfl hst hr
  | cut hf _ ih ih' =>
    obtain ⟨hframe, hst'⟩ := hf.frame
    have hst' := hst' fun _ h ↦ Outcome.noConfusion h
    have hvisit := (ht _ List.mem_cons_self).2
    have hs' := hs.after hframe hst' (hf.sound False.elim hs hvisit (hall _)).1
    exact ih' hs' (hv.trans (hf.worked hs hvisit)) (fun d hd ↦ ht d (List.mem_cons_of_mem _ hd))
      trivial (hst' ▸ hst) (ih hs hv hvisit rfl hst hr)
  | next hf _ ih ih' =>
    obtain ⟨hframe, hst'⟩ := hf.frame
    have hst' := hst' fun _ h ↦ Outcome.noConfusion h
    have hvisit := (ht _ List.mem_cons_self).2
    have hs' := hs.after hframe hst' (hf.sound False.elim hs hvisit (hall _)).1
    exact ih' hs' (hv.trans (hf.worked hs hvisit)) (fun d hd ↦ ht d (List.mem_cons_of_mem _ hd))
      trivial (hst' ▸ hst) (ih hs hv hvisit rfl hst hr)

theorem World.Settled.keeps (h : w.Settled R) (hs : Sound False (fun _ ↦ True) w)
    (hsep : ∀ x, R x → ModuleId.isRemote x ∨ w.Separate x) (text : String) :
    ∀ x m, R x → w.Has x m → (w.compile text .default).2.Has x m := by
  have hrun : ∀ {id out r}, w.entryId text = .ok id → Yields (Run.start w) (.visit id .default) out r →
      ∀ x m, R x → w.Has x m → r.world.Has x m := fun he hy ↦
    hy.keeps_settled h hs hsep hs.run (.refl w) (proper_entryId he) rfl (fun _ hm ↦ by cases hm)
      fun _ _ _ hm ↦ hm
  rcases compile_cases w text .default with ⟨cause, -, hc⟩ | ⟨id, r, he, ⟨stop, hy, hc⟩ | ⟨m, hy, hc⟩⟩ <;>
    rw [hc]
  · exact fun _ _ _ hm ↦ hm
  · exact hrun he hy
  · exact fun x n hx hn ↦ (World.sameGraph_persistAliases r.world r.visited).has.2
      (hrun he hy x n hx hn)

/-- What a call reaches is settled afterwards, if the imports of no local module lead back to it. -/
theorem World.Brings.settled (h : w.Brings id w')
    (hlocal : ∀ x, w'.Reaches id x → ¬ModuleId.isRemote x → ¬w'.OnCycle x ∧ w.Separate x) :
    w'.Settled fun x ↦ w'.Reaches id x ∧ ∃ m, w'.Has x m := by
  rintro x ⟨hx, m, hm | hm⟩
  · have hl := (h.sound.modules x m hm).2.2
    obtain ⟨hcycle, hsep⟩ := hlocal x hx hl
    refine .inr ⟨m, hm, h.sources x m hx hm hsep, fun d hd ↦ ?_⟩
    have hall := (h.accounts x m hx (.inl hm)).resolve_left fun hr ↦
      hl (h.sound.remote x m (h.remote x m hr)).2.2
    obtain ⟨target, htarget, hhash⟩ := hall d hd
    exact ⟨⟨hx.tail ⟨m, .inl hm, d, hd, rfl⟩, target, htarget⟩, target, htarget,
      hhash.resolve_right fun hc ↦ hcycle hc.1⟩
  · exact .inl ⟨m, hm⟩

end Settled

section Stands

/-- All that is registered is registered for its source, which lies apart from the store, and with all
that it imports. -/
structure World.Stands (w : World) : Prop where
  sound : Sound False (fun _ ↦ True) w
  apart : ∀ x m, w.Has x m → ModuleId.isRemote x ∨ w.Separate x
  sources : ∀ x m, w.graph.module? x = some m → ∃ s, w.source? x = some s ∧ m.sourceHash = s.hash
  closed : ∀ x m, w.Has x m → ∀ d ∈ m.dependencies, ∃ target, w.Has d.path target

structure Run.Renewing (w : World) (r : Run) (t : Task) : Prop where
  sound : r.Sound False fun _ ↦ True
  worked : w.Worked r.world
  tracked : r.Tracked
  carries : w.Carries (fun _ ↦ True) r.world
  proper : t.Proper
  ids : ∀ x ∈ t.ids, ∃ m, w.Has x m

namespace World.Stands

theorem dated (h : w.Stands) : w.Dated fun _ ↦ True :=
  fun x m _ hm ↦ h.sources x m hm

theorem exists_has (h : w.Stands) (hm : w.Has x m) (hr : Renewed m m') {d : Dependency}
    (hd : d ∈ m'.dependencies) : ∃ target, w.Has d.path target := by
  obtain ⟨d', hd', he⟩ := List.mem_map.1 (hr.paths ▸ List.mem_map_of_mem (f := Dependency.path) hd)
  exact he ▸ h.closed x m hm d' hd'

theorem feasible (h : w.Stands) : Feasible w.knownIds (Run.Renewing w) := by
  have hall : ∀ w : World, w.Each fun _ ↦ True := fun _ _ _ _ ↦ trivial
  refine ⟨fun {r id} hr hrem hv ↦ ?_, fun {r id} hr hrem hv ↦ hr.tracked.exists_known hv hrem,
    fun {r inner id m changed world ds} hr hrem hv hp hy ↦ ?_, fun {r importer d rest} hr ↦ ?_,
    fun {r r' importer d rest m} hr hy ↦ ?_⟩
  · obtain ⟨m, hm⟩ := hr.ids id List.mem_cons_self
    obtain ⟨n, world, hp, hrenewed⟩ := h.dated.prepare h.sound trivial (h.apart id m hm) hr.worked
      hr.sound.world hr.carries hm hrem (o := .default) rfl
    obtain ⟨-, hs', ht'⟩ := hr.sound.inside False.elim hr.proper hp
    refine ⟨mem_knownIds_of_has hm, n, false, world, hp, hs',
      hr.worked.trans (worked_prepare hp), hr.tracked.inside hp,
      hr.carries.sameModules (prepare_eq hp).1, ht', fun x hx ↦ ?_⟩
    obtain ⟨d, hd, rfl⟩ := List.mem_map.1 hx
    exact h.exists_has hm hrenewed hd
  · obtain ⟨-, hs', ht'⟩ := hr.sound.inside False.elim hr.proper hp
    exact exists_relink (hy.sound False.elim hs' ht' (hall _)).2.isHash m
  · refine ⟨hr.sound, hr.worked, hr.tracked, hr.carries, (hr.proper d List.mem_cons_self).2,
      fun x hx ↦ ?_⟩
    rw [List.mem_singleton.1 hx]
    exact hr.ids d.path List.mem_cons_self
  · obtain ⟨hframe, hst⟩ := hy.frame
    have hvisit := (hr.proper d List.mem_cons_self).2
    exact ⟨hr.sound.after hframe (hst fun _ h ↦ Outcome.noConfusion h)
        (hy.sound False.elim hr.sound hvisit (hall _)).1,
      hr.worked.trans (hy.worked hr.sound hvisit),
      hy.tracked hr.tracked fun _ h ↦ Outcome.noConfusion h,
      hy.carries h.dated h.sound (fun x m _ ↦ h.apart x m) hr.sound hr.worked hvisit ⟨rfl, rfl⟩ hr.carries,
      fun d' hd ↦ hr.proper d' (List.mem_cons_of_mem d hd),
      fun x hx ↦ hr.ids x (List.mem_cons_of_mem _ hx)⟩

theorem exists_compile (h : w.Stands) (he : w.entryId text = .ok id)
    (hm : w.Has id m) : ∃ m₀ w', w.compile text .default = (.ok m₀, w') ∧ m₀.id = id := by
  obtain ⟨m₀, r, hy, hc⟩ := Graph.exists_compile h.feasible he
    ⟨h.sound.run, .refl w, tracked_start w, fun _ n _ hn ↦ ⟨n, hn, rfl, rfl⟩, proper_entryId he,
      fun x hx ↦ ⟨m, List.mem_singleton.1 hx ▸ hm⟩⟩
  exact ⟨m₀, _, hc, (traversal_of_yields hy).1⟩

/-- A call that is about a registered module leaves all modules what they are but for their names. -/
theorem compile (h : w.Stands) (hm : w.Has m₀.id m)
    (hok : w.compile text .default = (.ok m₀, w')) : w'.Stands ∧
      (∀ x, (∃ n, w'.Has x n) ↔ ∃ n, w.Has x n) ∧ w'.Imports = w.Imports := by
  have hb := brings_of_compile h.sound hok
  have hcarries := carries_of_compile h.dated h.sound (fun x m _ ↦ h.apart x m) hok
  -- what is reached was registered before
  have hreached : ∀ x, w'.Reaches m₀.id x → ∃ n, w.Has x n := by
    intro x hx
    induction hx with
    | refl => exact ⟨m, hm⟩
    | tail _ hi ih =>
      obtain ⟨n, hn⟩ := ih
      obtain ⟨n', hn', d, hd, rfl⟩ := hi
      obtain ⟨n'', hn'', hr⟩ := hcarries _ n trivial hn
      obtain rfl := hb.sound.has_unique hn' hn''
      exact h.exists_has hn hr hd
  have hids : ∀ x n, w'.Has x n → ∃ n, w.Has x n := by
    intro x n hn
    by_cases hx : w'.Reaches m₀.id x
    · exact hreached x hx
    · exact ⟨n, (hb.rest x hx n).1 hn⟩
  have hback : ∀ x n, w'.Has x n → ∃ n₀, w.Has x n₀ ∧ Renewed n₀ n := by
    intro x n hn
    obtain ⟨n₀, hn₀⟩ := hids x n hn
    obtain ⟨n', hn', hr⟩ := hcarries x n₀ trivial hn₀
    exact ⟨n₀, hn₀, hb.sound.has_unique hn hn' ▸ hr⟩
  refine ⟨⟨hb.sound, fun x n hn ↦ ?_, fun x n hn ↦ ?_, fun x n hn d hd ↦ ?_⟩, fun x ↦
    ⟨fun ⟨n, hn⟩ ↦ hids x n hn, fun ⟨n, hn⟩ ↦ hb.has x n hn⟩, ?_⟩
  · obtain ⟨n₀, hn₀⟩ := hids x n hn
    exact (h.apart x n₀ hn₀).imp_right hb.worked.separate
  · obtain ⟨n₀, hn₀, hr⟩ := hback x n (.inl hn)
    obtain ⟨s, hs, hhash⟩ := h.sources x n₀
      (h.sound.module?_of_has hn₀ (hb.sound.modules x n hn).2.2)
    exact ⟨s, (hb.worked.source? (h.apart x n₀ hn₀)).trans hs, hr.sourceHash.trans hhash⟩
  · obtain ⟨n₀, hn₀, hr⟩ := hback x n hn
    obtain ⟨target, htarget⟩ := h.exists_has hn₀ hr hd
    exact hb.has _ target htarget
  · have hcarried : w'.Carries (fun _ ↦ True) w := fun x n _ hn ↦
      (hback x n hn).imp fun _ h ↦ ⟨h.1, h.2.sourceHash.symm, h.2.paths.symm⟩
    funext a b
    exact propext ⟨hcarried.imports trivial, hcarries.imports trivial⟩

end World.Stands

/-- The module of an id has the hashes that its dependencies have. -/
def World.Accords (w : World) (id : String) : Prop :=
  ∀ m, w.Has id m → ∀ d ∈ m.dependencies, ∃ target, w.Has d.path target ∧ d.hash = target.hash

def World.Consistent (w : World) (id : String) : Prop :=
  ∀ x, w.Reaches id x → w.Accords x

namespace World

variable {y : String}

theorem Consistent.of_reaches (h : w.Consistent id) (hr : w.Reaches id x) : w.Consistent x :=
  fun y hy ↦ h y (hr.trans hy)

theorem Stands.settled (h : w.Stands) :
    w.Settled fun x ↦ w.Consistent x ∧ ∃ m, w.Has x m := by
  rintro x ⟨hx, m, hm | hm⟩
  · refine .inr ⟨m, hm, h.sources x m hm, fun d hd ↦ ?_⟩
    obtain ⟨target, htarget, hhash⟩ := hx x .refl m (.inl hm) d hd
    exact ⟨⟨hx.of_reaches (.single ⟨m, .inl hm, d, hd, rfl⟩), target, htarget⟩, target, htarget, hhash⟩
  · exact .inl ⟨m, hm⟩

theorem Accords.congr (h : w.Accords x) (hs : Sound F T v) (hm : w.Has x m) (hm' : v.Has x m)
    (hd : ∀ d ∈ m.dependencies, ∀ target, w.Has d.path target → ∃ target', v.Has d.path target' ∧
      target'.hash = target.hash) : v.Accords x := by
  intro n hn d hd'
  obtain rfl := hs.has_unique hn hm'
  obtain ⟨target, htarget, hhash⟩ := h _ hm d hd'
  obtain ⟨target', htarget', he⟩ := hd d hd' target htarget
  exact ⟨target', htarget', hhash.trans he.symm⟩

/-- A module still has the hashes of what it imports if one module at most is another one by now, with
the hash that it had. -/
theorem Accords.of_others (h : w.Accords x) (hs : Sound F T v) (hm : w.Has x m) (hne : x ≠ id)
    (hothers : ∀ z n, z ≠ id → w.Has z n → v.Has z n)
    (hid : w.Imports x id → ∀ target, w.Has id target → ∃ target', v.Has id target' ∧
      target'.hash = target.hash) : v.Accords x := by
  refine h.congr hs hm (hothers x m hne hm) fun d hd target htarget ↦ ?_
  by_cases he : d.path = id
  · obtain ⟨target', htarget', hhash⟩ := hid ⟨m, hm, d, hd, he⟩ target (he ▸ htarget)
    exact ⟨target', he ▸ htarget', hhash⟩
  · exact ⟨target, hothers _ target he htarget, rfl⟩

theorem isRemote_of_imports (hs : Sound F T w) (hi : w.Imports x y) (hx : ModuleId.isRemote x) :
    ModuleId.isRemote y := by
  obtain ⟨m, hm, d, hd, rfl⟩ := hi
  exact ((hs.known hm).dependencies d hd).2.2 (hm.id_eq ▸ hx)

theorem isRemote_of_reaches (hs : Sound F T w) (hr : w.Reaches x y) (hx : ModuleId.isRemote x) :
    ModuleId.isRemote y := by
  induction hr with
  | refl => exact hx
  | tail _ hi ih => exact isRemote_of_imports hs hi ih

theorem Brings.consistent (h : w.Brings id w') (hs : Sound False (fun _ ↦ True) w)
    (hacyclic : ∀ x, ¬w'.OnCycle x)
    (hremote : ∀ x m, w.graph.remoteModule? x = some m → w.Accords x) : w'.Consistent id := by
  intro x hx m hm d hd
  rcases h.accounts x m hx hm with hr | hall
  · have hi : w.Imports x d.path := ⟨m, .inr hr, d, hd, rfl⟩
    obtain ⟨target, htarget, hhash⟩ := hremote x m hr m (.inr hr) d hd
    exact ⟨target, .inr (h.remote _ target (hs.remoteModule?_of_has htarget
      (isRemote_of_imports hs hi (hs.remote x m hr).2.2))), hhash⟩
  · obtain ⟨target, htarget, hhash⟩ := hall d hd
    exact ⟨target, htarget, hhash.resolve_right fun hc ↦ hacyclic x hc.1⟩

/-- Modules are brought up to date one after the other. Each one is as it was at first, or all that it
reaches is consistent. -/
structure Updating (u w : World) : Prop where
  stands : w.Stands
  acyclic : ∀ x, ¬w.OnCycle x
  remote : ∀ x m, w.graph.remoteModule? x = some m → w.Accords x
  held : ∀ x m, u.Has x m → w.Has x m ∨ w.Consistent x

structure Improves (w w' : World) : Prop where
  imports : w'.Imports = w.Imports
  ids : ∀ x, (∃ m, w'.Has x m) ↔ ∃ m, w.Has x m
  keeps : ∀ x m, w.Consistent x → w.Has x m → w'.Has x m
  consistent : ∀ x, w.Consistent x → w'.Consistent x

structure Advances (w : World) (id : String) (w' : World) : Prop extends Improves w w' where
  entry : w'.Consistent id
  rest : ∀ x m, ¬w.Reaches id x → w.Has x m → w'.Has x m

variable {u : World}

theorem Improves.refl (w : World) : w.Improves w :=
  ⟨rfl, fun _ ↦ Iff.rfl, fun _ _ _ hm ↦ hm, fun _ hx ↦ hx⟩

theorem Improves.trans (h : w.Improves w') (h' : w'.Improves v) : w.Improves v :=
  ⟨h'.imports.trans h.imports, fun x ↦ (h'.ids x).trans (h.ids x),
    fun x m hx hm ↦ h'.keeps x m (h.consistent x hx) (h.keeps x m hx hm),
    fun x hx ↦ h'.consistent x (h.consistent x hx)⟩

theorem Updating.consistent_of_remote (h : u.Updating w) (hx : ModuleId.isRemote x) :
    w.Consistent x := by
  intro y hy
  have hremote := isRemote_of_reaches h.stands.sound hy hx
  exact fun m hm ↦ h.remote y m (h.stands.sound.remoteModule?_of_has hm hremote) m hm

theorem Updating.compile (h : u.Updating w) (he : w.entryId text = .ok id) (hm : w.Has id m) :
    ∃ m₀ w', w.compile text .default = (.ok m₀, w') ∧ m₀.id = id ∧ w'.Has id m₀ ∧
      u.Updating w' ∧ w.Advances id w' := by
  obtain ⟨m₀, w', hok, rfl⟩ := h.stands.exists_compile he hm
  obtain ⟨hstands, hids, himports⟩ := h.stands.compile hm hok
  have hb := brings_of_compile h.stands.sound hok
  have hreaches : w'.Reaches = w.Reaches := by
    funext a
    rw [Reaches, Reaches, himports]
  have hacyclic : ∀ x, ¬w'.OnCycle x := by
    intro x
    rw [OnCycle, himports]
    exact h.acyclic x
  have hentry := hb.consistent h.stands.sound hacyclic h.remote
  have hkeeps : ∀ x n, w.Consistent x → w.Has x n → w'.Has x n := by
    intro x n hx hn
    have hkeep := h.stands.settled.keeps h.stands.sound (fun x hx ↦ hx.2.elim (h.stands.apart x)) text
      x n ⟨hx, n, hn⟩ hn
    rwa [hok] at hkeep
  have hconsistent : ∀ x, w.Consistent x → w'.Consistent x := by
    intro x hx y hy n hn d hd
    rw [hreaches] at hy
    obtain ⟨n₀, hn₀⟩ := (hids y).1 ⟨n, hn⟩
    obtain rfl := hstands.sound.has_unique hn (hkeeps y n₀ (hx.of_reaches hy) hn₀)
    obtain ⟨target, htarget, hhash⟩ := hx y hy n hn₀ d hd
    exact ⟨target, hkeeps _ target (hx.of_reaches (hy.tail ⟨n, hn₀, d, hd, rfl⟩)) htarget, hhash⟩
  have hrest : ∀ x n, ¬w.Reaches m₀.id x → w.Has x n → w'.Has x n := fun x n hx hn ↦
    (hb.rest x (hreaches ▸ hx) n).2 hn
  obtain ⟨r, -, -, -, -, -, -, hfound⟩ := traversal_of_compile hok
  refine ⟨m₀, w', hok, rfl, hfound, ⟨hstands, hacyclic, fun x n hn ↦ ?_, fun x n hn ↦ ?_⟩,
    ⟨himports, hids, hkeeps, hconsistent⟩, hentry, hrest⟩
  · exact hconsistent x (h.consistent_of_remote (hstands.sound.remote x n hn).2.2) x .refl
  · rcases h.held x n hn with hn | hx
    · by_cases hx : w.Reaches m₀.id x
      · exact .inr (hentry.of_reaches (hreaches ▸ hx))
      · exact .inl (hrest x n hx hn)
    · exact .inr (hconsistent x hx)

theorem Advances.only (h : w.Advances id w') (hbelow : ∀ y, TransGen w.Imports id y → w.Accords y)
    (hne : x ≠ id) (hm : w.Has x m) : w'.Has x m := by
  by_cases hx : w.Reaches id x
  · rcases Relation.reflTransGen_iff_eq_or_transGen.1 hx with rfl | hx
    · exact absurd rfl hne
    · exact h.keeps x m (fun y hy ↦ hbelow y (hx.trans_left hy)) hm
  · exact h.rest x m hx hm

/-- All that is registered is up to date, but for one module, whose source may be another one by now. -/
structure Awaits (w : World) (id : String) : Prop where
  sound : Sound False (fun _ ↦ True) w
  apart : ∀ x m, w.Has x m → ModuleId.isRemote x ∨ w.Separate x
  sources : ∀ x m, x ≠ id → w.graph.module? x = some m →
    ∃ s, w.source? x = some s ∧ m.sourceHash = s.hash
  upToDate : ∀ x, w.Accords x

namespace Awaits

theorem settled (h : w.Awaits id) :
    w.Settled fun x ↦ (∃ m, w.Has x m) ∧ ¬w.Reaches x id := by
  rintro x ⟨⟨m, hm | hm⟩, hx⟩
  · refine .inr ⟨m, hm, h.sources x m (fun he ↦ hx (he ▸ .refl)) hm, fun d hd ↦ ?_⟩
    obtain ⟨target, htarget, hhash⟩ := h.upToDate x m (.inl hm) d hd
    exact ⟨⟨⟨target, htarget⟩, fun hr ↦ hx (.head ⟨m, .inl hm, d, hd, rfl⟩ hr)⟩, target, htarget, hhash⟩
  · exact .inl ⟨m, hm⟩

/-- The call that is about the module changes no other one, if no imports lead back afterwards. -/
theorem compile (h : w.Awaits m₀.id) (hok : w.compile text .default = (.ok m₀, w'))
    (hacyclic : ∀ x, ¬w'.OnCycle x)
    (hsep : ∀ x n, w'.Has x n → ModuleId.isRemote x ∨ w.Separate x) :
    w.Updating w' ∧ w'.Consistent m₀.id ∧ (∀ x n, x ≠ m₀.id → w.Has x n → w'.Has x n) ∧
      ∀ x n, w'.Has x n → w'.Reaches m₀.id x ∨ w.Has x n := by
  have hb := brings_of_compile h.sound hok
  have hcarries : w.Carries (· ≠ m₀.id) w' :=
    carries_of_compile h.sources h.sound (fun x n _ ↦ h.apart x n) hok
  have hnew : ∀ x n, w'.Has x n → w'.Reaches m₀.id x ∨ w.Has x n := fun x n hn ↦
    or_iff_not_imp_left.2 fun hx ↦ (hb.rest x hx n).1 hn
  -- what led to the module still does
  have hleads : ∀ x, w.Reaches x m₀.id → w'.Reaches x m₀.id := by
    intro x hx
    induction hx using ReflTransGen.head_induction_on with
    | refl => exact .refl
    | @head x z hi _ ih =>
      by_cases he : x = m₀.id
      · exact he ▸ .refl
      · exact .head (hcarries.imports he hi) ih
  have honly : ∀ x n, x ≠ m₀.id → w.Has x n → w'.Has x n := by
    intro x n hne hn
    by_cases hx : w.Reaches x m₀.id
    · refine (hb.rest x (fun hr ↦ hacyclic m₀.id ?_) n).2 hn
      exact ((Relation.reflTransGen_iff_eq_or_transGen.1 hr).resolve_left hne).trans_left (hleads x hx)
    · have hkeep := h.settled.keeps h.sound (fun x hx ↦ hx.1.elim (h.apart x)) text x n
        ⟨⟨n, hn⟩, hx⟩ hn
      rwa [hok] at hkeep
  have hentry := hb.consistent h.sound hacyclic fun x _ _ ↦ h.upToDate x
  refine ⟨⟨⟨hb.sound, fun x n hn ↦ (hsep x n hn).imp_right hb.worked.separate, fun x n hn ↦ ?_,
    fun x n hn d hd ↦ ?_⟩, hacyclic, fun x n hn ↦ ?_, fun x n hn ↦ ?_⟩, hentry, honly, hnew⟩
  · have hapart := (hsep x n (.inl hn)).resolve_left (hb.sound.modules x n hn).2.2
    by_cases hx : w'.Reaches m₀.id x
    · exact hb.sources x n hx hn hapart
    · obtain ⟨s, hs, hhash⟩ := h.sources x n (fun he ↦ hx (he ▸ .refl))
        (h.sound.module?_of_has ((hb.rest x hx n).1 (.inl hn)) (hb.sound.modules x n hn).2.2)
      exact ⟨s, (hb.worked.source? (.inr hapart)).trans hs, hhash⟩
  · rcases hnew x n hn with hx | hn'
    · obtain ⟨target, htarget, -⟩ := hentry x hx n hn d hd
      exact ⟨target, htarget⟩
    · obtain ⟨target, htarget, -⟩ := h.upToDate x n hn' d hd
      exact hb.has _ target htarget
  · rcases hnew x n (.inr hn) with hx | hn'
    · exact hentry x hx
    · have hr := (hb.sound.remote x n hn).2.2
      refine (h.upToDate x).congr hb.sound hn' (.inr hn) fun d hd target htarget ↦ ⟨target, ?_, rfl⟩
      exact .inr (hb.remote _ target (h.sound.remoteModule?_of_has htarget
        (isRemote_of_imports h.sound ⟨n, hn', d, hd, rfl⟩ hr)))
  · by_cases he : x = m₀.id
    · exact .inr (he ▸ hentry)
    · exact .inl (honly x n he hn)

end Awaits
end World

end Stands

end SiteCompiler.Graph
