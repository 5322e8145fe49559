import SiteCompiler.Proofs.Graph.Reloading
import SiteCompiler.Proofs.Graph.Repetition

namespace SiteCompiler.Graph

open ArtifactStore (recordEnding recordText)

variable {F : Prop} {T R : String → Prop} {final : String → Module} {w w' : World}
variable {ws : List World} {r r' : Run} {t : Task} {out : Outcome} {id text : String}
variable {m m₀ : Module}

/-- What a call has looked at when it ends with a module: all that this reaches, but for remote modules
that were there before. -/
theorem confirms_of_compile (hs : Sound False (fun _ ↦ True) w)
    (hok : w.compile text .default = (.ok m₀, w'))
    (hsep : ∀ x, w'.Reaches m₀.id x → ModuleId.isRemote x ∨ w.Separate x)
    (hx : w'.Reaches m₀.id id) (hm : w'.Has id m) : w.graph.remoteModule? id = some m ∨
      w'.Confirms m ∧ Hashed m ∧ ∀ d ∈ m.dependencies, ∃ target, w'.Has d.path target := by
  have hb := brings_of_compile hs hok
  obtain ⟨r, hy, hst, he, hw', ht, hcovers, -⟩ := traversal_of_compile hok
  have hsame : World.SameGraph r.world w' := hw' ▸ World.sameGraph_persistAliases r.world r.visited
  have hnil : ∀ n ∈ r.stack, n.id ≠ id := by
    rw [hst]
    exact fun _ h ↦ by cases h
  by_cases hv : id ∈ r.visited
  · have hchecked := hy.checks (S := w'.Reaches m₀.id) hsep hs.run (.refl w) (proper_entryId he)
      ⟨rfl, rfl⟩ ⟨(fun _ hm ↦ by cases hm), fun _ hx ↦ by cases hx⟩ fun _ h ↦ Outcome.noConfusion h
    obtain ⟨m', hm', hc⟩ := hchecked.finished id hv hnil
    obtain rfl := hb.sound.has_unique hm (hsame.has.2 hm')
    obtain ⟨m', hm', hd⟩ := ht.finished id hv hnil
    obtain rfl := hb.sound.has_unique hm (hsame.has.2 hm')
    refine .inr ⟨?_, ?_, fun d hd' ↦ (hd d hd').2.imp fun _ h ↦ h.1⟩
    · rw [hb.worked.confirms (hm.id_eq.symm ▸ hsep id hx)]
      exact hc hx
    · refine ((hy.hashes ⟨hs, fun _ hm ↦ by cases hm⟩ (proper_entryId he) rfl).2 id m
        (hsame.has.1 hm)).resolve_right fun h ↦ ?_
      rcases h.2 hv with hv | ⟨_, hstop⟩
      · cases hv
      · cases hstop
  · have hl := (ht.visited_of_reaches hsame hst hb.sound hcovers hx).resolve_left hv
    refine .inl (hs.remoteModule?_of_has ?_ hl)
    have hm := hsame.has.1 hm
    rw [World.Has, module?, remoteModule?, hy.frame.1.modules id (.inr hv),
      hy.frame.1.remote id (.inr hv)] at hm
    exact hm

/-- Remote modules that are registered, so that a call does not visit them, are as they were recorded,
and import such modules by current names or on simple cycles. -/
def World.Retains (w w' : World) (S : String → Prop) : Prop :=
  ∀ x m, S x → w.graph.remoteModule? x = some m → w'.Confirms m ∧
    ∀ d ∈ m.dependencies, w.Vendors d.path ∧ w'.Named x d

namespace World.Retains

theorem registered (h : w.Retains w' (w'.Reaches id)) (hb : w.Brings id w')
    (hfinal : ∀ x m, w'.Has x m → m = final x) {x : String} (hx : w'.Reaches id x)
    (hv : w.Vendors x) : w'.Confirms (final x) ∧
      ∀ d ∈ (final x).dependencies, w.Vendors d.path ∧ w'.Named x d := by
  obtain ⟨m, hm⟩ := hv
  obtain rfl := hfinal x m (.inr (hb.remote x m hm))
  exact h x _ hx hm

theorem closed (h : w.Retains w' (w'.Reaches id)) (hb : w.Brings id w')
    (hfinal : ∀ x m, w'.Has x m → m = final x) {x y : String} (hx : w'.Reaches id x)
    (hv : w.Vendors x) (hxy : w'.Reaches x y) : w.Vendors y := by
  induction hxy with
  | refl => exact hv
  | @tail b c hxb hi ih =>
    obtain ⟨m, hm, d, hd, rfl⟩ := hi
    obtain rfl := hfinal b m hm
    exact ((h.registered hb hfinal (hx.trans hxb) ih).2 d hd).1

/-- All that a call reaches is there, and would be found as it was recorded. -/
theorem there (h : w.Retains w' (w'.Reaches m₀.id)) (hs : Sound False (fun _ ↦ True) w)
    (hok : w.compile text .default = (.ok m₀, w'))
    (hsep : ∀ x, w'.Reaches m₀.id x → ModuleId.isRemote x ∨ w.Separate x)
    (hfinal : ∀ x m, w'.Has x m → m = final x) {x : String}
    (hx : w'.Reaches m₀.id x ∧ ∃ m, w'.Has x m) : w'.Has x (final x) ∧ w'.Confirms (final x) ∧
      ∀ d ∈ (final x).dependencies, w'.Reaches m₀.id d.path ∧ ∃ m, w'.Has d.path m := by
  have hb := brings_of_compile hs hok
  obtain ⟨hx, m, hm⟩ := hx
  obtain rfl := hfinal x m hm
  have hreach : ∀ d ∈ (final x).dependencies, w'.Reaches m₀.id d.path := fun d hd ↦
    hx.tail ⟨_, hm, d, hd, rfl⟩
  rcases confirms_of_compile hs hok hsep hx hm with hr | ⟨hc, -, hall⟩
  · obtain ⟨hc, hall⟩ := h x _ hx hr
    refine ⟨hm, hc, fun d hd ↦ ⟨hreach d hd, ?_⟩⟩
    obtain ⟨-, target, htarget, -⟩ := hall d hd
    exact ⟨target, htarget⟩
  · exact ⟨hm, hc, fun d hd ↦ ⟨hreach d hd, hall d hd⟩⟩

theorem firm (h : w.Retains w' (w'.Reaches m₀.id)) (hs : Sound False (fun _ ↦ True) w)
    (hok : w.compile text .default = (.ok m₀, w'))
    (hsep : ∀ x, w'.Reaches m₀.id x → ModuleId.isRemote x ∨ w.Separate x)
    (hfinal : ∀ x m, w'.Has x m → m = final x) : w'.Firm (fun x ↦ ¬w.Vendors x) w.Vendors
      fun x ↦ w'.Reaches m₀.id x ∧ ∃ m, w'.Has x m := by
  intro x hx hnew
  obtain ⟨hm, -, hd⟩ := h.there hs hok hsep hfinal hx
  obtain ⟨-, hhash, -⟩ := (confirms_of_compile hs hok hsep hx.1 hm).resolve_left fun hr ↦
    hnew ⟨_, hr⟩
  exact ⟨final x, hm, fun d hd' ↦ ⟨hd d hd', hhash d hd', fun hr hn ↦ absurd hr hn⟩⟩

end World.Retains

/-- What has been looked after has firm names, if remote modules on cycles have their current names
where local modules on cycles import them. -/
theorem World.Tended.firm (h : w.Tended fun x ↦ w.Reaches id x ∧ ∃ m, w.Has x m)
    (hremote : ∀ x m, w.Reaches id x → w.graph.module? x = some m → ∀ d ∈ m.dependencies,
      ModuleId.isRemote d.path → w.OnCycle x → w.OnCycle d.path →
        ∃ target, w.Has d.path target ∧ d.hash = target.hash) :
    w.Firm (fun _ ↦ True) (fun x ↦ ModuleId.isRemote x) fun x ↦ w.Reaches id x ∧ ∃ m, w.Has x m := by
  rintro x ⟨hx, m, hm⟩ hl
  have hmodule := h.sound.module?_of_has hm hl
  refine ⟨m, hm, fun d hd ↦ ?_⟩
  obtain ⟨hne, target, htarget, hhash⟩ := h.accounts x m ⟨hx, m, hm⟩ hmodule d hd
  refine ⟨⟨hx.tail ⟨m, hm, d, hd, rfl⟩, target, htarget⟩, hne, fun hr _ ↦ ?_⟩
  rcases hhash with hhash | ⟨hcycle, hcycle'⟩
  · exact ⟨target, htarget, hhash⟩
  · exact hremote x m hx hmodule d hd hr hcycle hcycle'

/-- The way of the call that led to a world can be gone again there, where remote modules are
registered. -/
theorem World.Tended.repeats (h : w'.Tended fun x ↦ w'.Reaches m₀.id x ∧ ∃ m, w'.Has x m)
    (hs : Sound False (fun _ ↦ True) w) (hok : w.compile text .default = (.ok m₀, w'))
    (hremote : ∀ x m, w'.Reaches m₀.id x → w'.graph.module? x = some m → ∀ d ∈ m.dependencies,
      ModuleId.isRemote d.path → w'.OnCycle x → w'.OnCycle d.path →
        ∃ target, w'.Has d.path target ∧ d.hash = target.hash)
    {again : String} (hentry : w'.entryId again = .ok m₀.id) :
    (w'.compile again .default).1 = .ok m₀ ∧
      w'.Idles (fun _ ↦ False) (w'.compile again .default).2 := by
  obtain ⟨final, hfinal⟩ := h.sound.exists_final
  obtain ⟨-, -, -, -, -, -, -, hhas⟩ := traversal_of_compile hok
  have hupkeep := upkeep_along (v := w') (h.firm hremote) hfinal
    (fun x y _ hx hxy ↦ h.sound.isRemote_of_reaches hxy hx)
    (fun x ⟨_, m, hm⟩ hx ↦ .inl ⟨m, h.sound.remoteModule?_of_has hm hx⟩)
    fun _ _ ↦ h.sound.vendors_of_reaches
  have hvendors : ∀ {v : World} {x : String}, Sound False (fun _ ↦ True) v → ¬ModuleId.isRemote x →
      ¬v.Vendors x := fun hv hx ⟨m, hm⟩ ↦ hx (hv.remote _ m hm).2.2
  obtain ⟨-, hc, hidles, -⟩ := h.standing.idles h.stocks h.sound hfinal hupkeep hentry
    (along_of_compile hok (fun x hx ↦ iff_of_false (hvendors h.sound hx) (hvendors hs hx))
      ⟨.refl, m₀, hhas⟩ fun _ _ _ _ ↦ trivial)
  exact ⟨hfinal _ _ hhas ▸ hc, hidles⟩

end SiteCompiler.Graph
