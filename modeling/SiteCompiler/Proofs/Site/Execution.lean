import SiteCompiler.Proofs.Graph.OutputNames
import SiteCompiler.Proofs.Graph.Renewal
import SiteCompiler.Proofs.Site.Working

namespace SiteCompiler.Site

open SiteCompiler.Graph (World History)
open Relation (ReflTransGen)

section Following

variable {g : Graph} {entry m : Module} {r : Reach} {held : List Module} {d : Dependency}

/-- The module that an id leads to from the code of an entry. -/
def target? (g : Graph) (entry : Module) (id : String) : Option Module :=
  if id = entry.id then some entry else (g.module? id).or (g.remoteModule? id)

inductive Reached (g : Graph) (entry : Module) : Module → Prop
  | entry : Reached g entry entry
  | next {m n : Module} {d : Dependency} (before : Reached g entry m) (mem : d ∈ m.dependencies)
      (found : target? g entry d.path = some n) : Reached g entry n

def Reach.unseen (g : Graph) (r : Reach) : Nat :=
  ((g.modules.modules ++ g.remote.modules).filter fun m ↦ m.id ∉ r.seen).length

/-- What has been seen waits, is being looked at, or has been found with all its dependencies seen;
what waits or has been found is reached. -/
structure Reach.Follows (g : Graph) (entry : Module) (held : List Module) (r : Reach) : Prop where
  first : entry.id ∈ r.seen
  waiting : ∀ m ∈ r.waiting, Reached g entry m
  found : ∀ x ∈ r.found, ∃ m, Reached g entry m ∧ (m.outputName, m.code) = x
  names : (r.found.map (·.1)).Nodup
  seen : ∀ id ∈ r.seen, ∀ m, target? g entry id = some m → m ∈ r.waiting ∨ m ∈ held ∨
    m.outputName ∈ r.found.map (·.1) ∧ ∀ d ∈ m.dependencies, d.path ∈ r.seen

theorem mem_of_registered {id : String} (h : (g.module? id).or (g.remoteModule? id) = some m) :
    m ∈ g.modules.modules ++ g.remote.modules ∧ m.id = id := by
  rcases Option.or_eq_some_iff.1 h with h | ⟨-, h⟩
  · exact ⟨List.mem_append_left _ (ModuleTable.mem_of_find? h), ModuleTable.id_of_find? h⟩
  · exact ⟨List.mem_append_right _ (ModuleTable.mem_of_find? h), ModuleTable.id_of_find? h⟩

theorem length_filter_lt {α : Type} {p q : α → Bool} {xs : List α} {x : α} (hx : x ∈ xs)
    (hq : q x = true) (hp : p x = false) (h : ∀ y, p y = true → q y = true) :
    (xs.filter p).length < (xs.filter q).length := by
  induction xs with
  | nil => cases hx
  | cons y ys ih =>
    have hle : (ys.filter p).length ≤ (ys.filter q).length :=
      (List.monotone_filter_right ys h).length_le
    rcases List.mem_cons.1 hx with rfl | hx
    · simp [hq, hp]
      omega
    · have hlt := ih hx
      by_cases hy : p y = true
      · simp [hy, h y hy, hlt]
      · by_cases hy' : q y = true <;> simp [hy, hy'] <;> omega

theorem unseen_add (g : Graph) (r : Reach) (d : Dependency) :
    (r.add g d).waiting.length + (r.add g d).unseen g ≤ r.waiting.length + r.unseen g := by
  rw [Reach.add]
  split
  · exact Nat.le_refl _
  · next hs =>
    have hs : d.path ∉ r.seen := by simpa using hs
    have hmono : ∀ m : Module, decide (m.id ∉ d.path :: r.seen) = true →
        decide (m.id ∉ r.seen) = true := by
      intro m hm
      simp only [List.mem_cons, not_or, decide_eq_true_eq] at hm ⊢
      exact hm.2
    cases hn : (g.module? d.path).or (g.remoteModule? d.path) with
    | none =>
      have hle := (List.monotone_filter_right (g.modules.modules ++ g.remote.modules) hmono).length_le
      simpa [Reach.unseen] using hle
    | some n =>
      obtain ⟨hmem, hid⟩ := mem_of_registered hn
      have hlt : (Reach.unseen g { r with seen := d.path :: r.seen }) < r.unseen g :=
        length_filter_lt hmem (by simpa [hid] using hs) (by simp [hid]) hmono
      simp only [Reach.unseen] at hlt
      simp only [Reach.unseen, Option.toList_some, List.length_append, List.length_singleton]
      omega

theorem Reach.Follows.add (h : r.Follows g entry held) (hm : Reached g entry m)
    (hd : d ∈ m.dependencies) : (r.add g d).Follows g entry held ∧ d.path ∈ (r.add g d).seen ∧
      (∀ id ∈ r.seen, id ∈ (r.add g d).seen) ∧ (r.add g d).found = r.found := by
  rw [Reach.add]
  split
  · next hs => exact ⟨h, List.contains_iff_mem.1 hs, fun _ hid ↦ hid, rfl⟩
  · next hs =>
    have hs : d.path ∉ r.seen := by simpa using hs
    have hne : d.path ≠ entry.id := fun he ↦ hs (he ▸ h.first)
    have htarget : target? g entry d.path = (g.module? d.path).or (g.remoteModule? d.path) :=
      if_neg hne
    refine ⟨⟨List.mem_cons_of_mem _ h.first, ?_, h.found, h.names, ?_⟩, List.mem_cons_self,
      fun _ ↦ List.mem_cons_of_mem _, rfl⟩
    · intro n hn
      rcases List.mem_append.1 hn with hn | hn
      · rw [Option.mem_toList, ← htarget] at hn
        exact hm.next hd hn
      · exact h.waiting n hn
    · intro id hid n hn
      rcases List.mem_cons.1 hid with rfl | hid
      · left
        rw [htarget] at hn
        simp [hn]
      · rcases h.seen id hid n hn with hw | hh | ⟨hf, hdeps⟩
        · exact .inl (List.mem_append_right _ hw)
        · exact .inr (.inl hh)
        · exact .inr (.inr ⟨hf, fun d' hd' ↦ List.mem_cons_of_mem _ (hdeps d' hd')⟩)

theorem Reach.Follows.foldl_add (h : r.Follows g entry held) (hm : Reached g entry m)
    (ds : List Dependency) (hds : ∀ d ∈ ds, d ∈ m.dependencies) :
    (ds.foldl (Reach.add g) r).Follows g entry held ∧
      (∀ d ∈ ds, d.path ∈ (ds.foldl (Reach.add g) r).seen) ∧
      (∀ id ∈ r.seen, id ∈ (ds.foldl (Reach.add g) r).seen) ∧
      (ds.foldl (Reach.add g) r).found = r.found := by
  induction ds generalizing r with
  | nil => exact ⟨h, (fun _ hd ↦ by cases hd), fun _ hid ↦ hid, rfl⟩
  | cons d ds ih =>
    obtain ⟨h', hd, hs, hf⟩ := h.add hm (hds d List.mem_cons_self)
    obtain ⟨h'', hds', hs', hf'⟩ := ih h' fun d' hd' ↦ hds d' (List.mem_cons_of_mem d hd')
    refine ⟨h'', fun d' hd' ↦ ?_, fun id hid ↦ hs' id (hs id hid), hf'.trans hf⟩
    rcases List.mem_cons.1 hd' with rfl | hd'
    · exact hs' _ hd
    · exact hds' d' hd'

theorem unseen_foldl_add (g : Graph) (r : Reach) (ds : List Dependency) :
    (ds.foldl (Reach.add g) r).waiting.length + (ds.foldl (Reach.add g) r).unseen g ≤
      r.waiting.length + r.unseen g := by
  induction ds generalizing r with
  | nil => exact Nat.le_refl _
  | cons d ds ih => exact (ih (r.add g d)).trans (unseen_add g r d)

theorem Reach.Follows.pop {rest : List Module} (h : r.Follows g entry [])
    (hw : r.waiting = m :: rest) :
    let r' := m.dependencies.foldl (Reach.add g) { r with waiting := rest }
    Reach.Follows g entry []
      { r' with found := (r'.found.filter (·.1 ≠ m.outputName)) ++ [(m.outputName, m.code)] } := by
  have hm : Reached g entry m := h.waiting m (hw ▸ List.mem_cons_self)
  have hheld : Reach.Follows g entry [m] { r with waiting := rest } := by
    refine ⟨h.first, fun n hn ↦ h.waiting n (hw ▸ List.mem_cons_of_mem m hn), h.found, h.names,
      fun id hid n hn ↦ ?_⟩
    rcases h.seen id hid n hn with hn | hn | hn
    · rw [hw] at hn
      rcases List.mem_cons.1 hn with rfl | hn
      · exact .inr (.inl List.mem_cons_self)
      · exact .inl hn
    · cases hn
    · exact .inr (.inr hn)
  obtain ⟨h', hdeps, -, -⟩ := hheld.foldl_add hm m.dependencies fun _ hd ↦ hd
  intro r'
  have hnames : ∀ name, name ∈ ((r'.found.filter (·.1 ≠ m.outputName)) ++
      [(m.outputName, m.code)]).map (·.1) ↔ name = m.outputName ∨ name ∈ r'.found.map (·.1) := by
    intro name
    by_cases hname : name = m.outputName <;> simp [hname]
  refine ⟨h'.first, h'.waiting, ?_, ?_, ?_⟩
  · intro x hx
    rcases List.mem_append.1 hx with hx | hx
    · exact h'.found x (List.mem_of_mem_filter hx)
    · exact ⟨m, hm, (List.mem_singleton.1 hx).symm⟩
  · rw [List.map_append, List.nodup_append]
    refine ⟨h'.names.sublist (List.filter_sublist.map _), by simp, ?_⟩
    intro a ha b hb
    simp at ha hb
    rintro rfl
    exact ha.2 hb
  · intro id hid n hn
    rcases h'.seen id hid n hn with hn | hn | ⟨hf, hd⟩
    · exact .inl hn
    · rw [List.mem_singleton.1 hn]
      exact .inr (.inr ⟨(hnames _).2 (.inl rfl), hdeps⟩)
    · exact .inr (.inr ⟨(hnames _).2 (.inr hf), hd⟩)

/-- With steps enough for all that waits and all that can come to wait, everything that is reached
has been found in the end. -/
theorem Reach.Follows.follow (count : Nat) (h : r.Follows g entry [])
    (hc : r.waiting.length + r.unseen g < count) :
    ∃ r' : Reach, r'.waiting = [] ∧ r'.Follows g entry [] ∧ Reach.follow g count r = r'.found := by
  induction count generalizing r with
  | zero => omega
  | succ count ih =>
    cases hw : r.waiting with
    | nil => exact ⟨r, hw, h, by rw [Reach.follow, hw]⟩
    | cons m rest =>
      have hle := unseen_foldl_add g { r with waiting := rest } m.dependencies
      obtain ⟨r', hw', h', he⟩ := ih (h.pop hw) (by
        rw [hw, List.length_cons] at hc
        simp only [Reach.unseen] at hle hc ⊢
        omega)
      exact ⟨r', hw', h', by rw [Reach.follow, hw]; exact he⟩

end Following

/-- The calls that have ended with a module before a page is evaluated, the two for the page and the
application included: the id of the module, and the world after the call. -/
inductive Ended (s : Site) (ws : List World) (pageId : String) : String → World → Prop
  | before {v v' : World} {vs : List World} {text : String} {m : Module}
      (past : v' :: v :: vs <:+ s.world :: ws) (ok : v.compile text .default = (.ok m, v')) :
      Ended s ws pageId m.id v'
  | page {v : World} {m : Module} (dev : s.isProduction = false)
      (ok : s.world.compile pageId .default = (.ok m, v)) : Ended s ws pageId m.id v
  | app {v v' : World} {app : String} {page m : Module} (dev : s.isProduction = false)
      (app_eq : s.appModule? = some app) (page_ok : s.world.compile pageId .default = (.ok page, v))
      (ok : v.compile app .default = (.ok m, v')) : Ended s ws pageId m.id v'

section Pages

variable {F : Prop} {T : String → Prop} {w w' : World} {entry m target : Module} {id text : String}
  {d : Dependency}

variable {s s' : Site} {ws : List World} {pageId : String} {p : Prepared}

theorem Ended.history {v' : World} (h : s.Ended ws pageId id v')
    (hist : History (fun _ _ ↦ True) (s.world :: ws)) : ∃ v text m vs,
      History (fun _ _ ↦ True) (v :: vs) ∧ v.compile text .default = (.ok m, v') ∧ m.id = id := by
  cases h with
  | @before v v' vs text m past ok => exact ⟨v, text, m, vs, hist.suffix ((List.suffix_cons v' _).trans past), ok, rfl⟩
  | @page _ m _ ok => exact ⟨s.world, pageId, m, ws, hist, ok, rfl⟩
  | @app v _ app _ m _ _ page_ok ok =>
    refine ⟨v, app, m, s.world :: ws, ?_, ok, rfl⟩
    have hstep := hist.step (e := .compile pageId .default) (s.world.admits_compile pageId .default)
      trivial
    rwa [World.react_compile, page_ok] at hstep

end Pages

end SiteCompiler.Site
