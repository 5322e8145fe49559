import SiteCompiler.Discovery
import SiteCompiler.PageTable
import SiteCompiler.Proofs.ModuleId
import SiteCompiler.Proofs.Route

namespace SiteCompiler

namespace Route

variable {routes segments : List String} {fallback : Option String} {path path' : String}
  {params params' : List (String × String)}

/-- Which of the routes serves the segments, and with which parameters. -/
inductive Selects (routes : List String) (fallback : Option String) (segments : List String) :
    String → List (String × String) → Prop
  | static {route : String} (mem : route ∈ routes) (static : ¬Captures route)
      (spelled : segments = Text.segments route) : Selects routes fallback segments route []
  | dynamic {route : String} {captures params : List (String × String)}
      (none : ∀ r ∈ routes, ¬Captures r → segments ≠ Text.segments r) (mem : route ∈ routes)
      (dynamic : Captures route) (fits : Matches (Text.segments route) segments captures)
      (taken : Params captures params)
      (least : ∀ r ∈ routes, Captures r → (∃ c, Matches (Text.segments r) segments c) → route ≤ r) :
      Selects routes fallback segments route params
  | fallback (none : ∀ r ∈ routes, ¬∃ c, Matches (Text.segments r) segments c) :
      Selects routes fallback segments (fallback.getD "") []

theorem match?_eq_none {route : String} :
    match? route segments = none ↔ ¬∃ c, Matches (Text.segments route) segments c := by
  rw [Option.eq_none_iff_forall_ne_some]
  constructor
  · rintro h ⟨c, hc⟩
    exact h _ (match?_eq_some.2 ⟨c, hc, params_iff.2 rfl⟩)
  · rintro h params hp
    obtain ⟨c, hc, -⟩ := match?_eq_some.1 hp
    exact h ⟨c, hc⟩

theorem Selects.fits_of_static {route : String} (h : ¬Captures route)
    (hs : segments = Text.segments route) : ∃ c, Matches (Text.segments route) segments c := by
  obtain ⟨c, hc, -⟩ := match?_eq_some.1 ((match?_static h).2 ⟨hs, rfl⟩)
  exact ⟨c, hc⟩

/-- Where no two static routes have the same segments, at most one page serves a location. -/
theorem Selects.unique
    (hinj : ∀ r ∈ routes, ∀ r' ∈ routes, Text.segments r = Text.segments r' → r = r')
    (h : Selects routes fallback segments path params)
    (h' : Selects routes fallback segments path' params') : path = path' ∧ params = params' := by
  cases h with
  | static mem static spelled =>
    cases h' with
    | static mem' static' spelled' =>
      exact ⟨hinj _ mem _ mem' (spelled.symm.trans spelled'), rfl⟩
    | dynamic none' => exact absurd spelled (none' _ mem static)
    | fallback none' => exact absurd (fits_of_static static spelled) (none' _ mem)
  | dynamic none mem dynamic fits taken least =>
    cases h' with
    | static mem' static' spelled' => exact absurd spelled' (none _ mem' static')
    | dynamic _ mem' dynamic' fits' taken' least' =>
      obtain rfl := le_antisymm (least _ mem' dynamic' ⟨_, fits'⟩) (least' _ mem dynamic ⟨_, fits⟩)
      have hparams := (match?_eq_some.2 ⟨_, fits, taken⟩).symm.trans
        (match?_eq_some.2 ⟨_, fits', taken'⟩)
      exact ⟨rfl, Option.some_inj.1 hparams⟩
    | fallback none' => exact absurd ⟨_, fits⟩ (none' _ mem)
  | fallback none =>
    cases h' with
    | static mem' static' spelled' =>
      exact absurd (fits_of_static static' spelled') (none _ mem')
    | dynamic _ mem' _ fits' => exact absurd ⟨_, fits'⟩ (none _ mem')
    | fallback => exact ⟨rfl, rfl⟩

end Route

namespace PageTable

open Route (isDynamic isDynamic_iff Captures Selects match? match?_eq_some match?_static match?_eq_none)

theorem precedes_iff {a b : String} : precedes a b = true ↔
    (isDynamic a = false ∧ isDynamic b = true) ∨ isDynamic a = isDynamic b ∧ a ≤ b := by
  rw [precedes]
  cases isDynamic a <;> cases isDynamic b <;> simp

theorem precedes_trans (a b c : String) (hab : precedes a b = true) (hbc : precedes b c = true) :
    precedes a c = true := by
  rw [precedes_iff] at hab hbc ⊢
  rcases hab with ⟨ha, hb⟩ | ⟨hab, hle⟩ <;> rcases hbc with ⟨hb', hc⟩ | ⟨hbc, hle'⟩
  · exact .inl ⟨ha, hc⟩
  · exact .inl ⟨ha, hbc ▸ hb⟩
  · exact .inl ⟨hab ▸ hb', hc⟩
  · exact .inr ⟨hab.trans hbc, hle.trans hle'⟩

theorem precedes_total (a b : String) : (precedes a b || precedes b a) = true := by
  rw [Bool.or_eq_true, precedes_iff, precedes_iff]
  have hle := le_total a b
  cases isDynamic a <;> cases isDynamic b <;> simp [hle]

theorem precedes_antisymm {a b : String} (hab : precedes a b = true) (hba : precedes b a = true) :
    a = b := by
  rw [precedes_iff] at hab hba
  rcases hab with ⟨ha, hb⟩ | ⟨hab, hle⟩ <;> rcases hba with ⟨hb', ha'⟩ | ⟨hba, hle'⟩
  · rw [ha] at ha'
    cases ha'
  · rw [ha, hb] at hba
    cases hba
  · rw [hb', ha'] at hab
    cases hab
  · exact le_antisymm hle hle'

section Entries

theorem entries_trans (a b c : String × String) (hab : precedes a.1 b.1 = true)
    (hbc : precedes b.1 c.1 = true) : precedes a.1 c.1 = true :=
  precedes_trans a.1 b.1 c.1 hab hbc

theorem entries_total (a b : String × String) :
    (precedes a.1 b.1 || precedes b.1 a.1) = true := by
  exact precedes_total a.1 b.1

variable {es : List (String × String)}

theorem dropRepeats_sublist (es : List (String × String)) : (dropRepeats es).Sublist es := by
  induction es with
  | nil => exact List.Sublist.slnil
  | cons e rest ih =>
    rw [dropRepeats]
    cases hr : dropRepeats rest with
    | nil => exact (List.nil_sublist rest).cons_cons e
    | cons f fs =>
      rw [hr] at ih
      dsimp only
      split
      · exact ((List.sublist_cons_self f fs).trans ih).cons_cons e
      · exact ih.cons_cons e

theorem lookup_dropRepeats (es : List (String × String)) (route : String) :
    (dropRepeats es).lookup route = es.lookup route := by
  induction es with
  | nil => rfl
  | cons e rest ih =>
    rw [dropRepeats, Json.lookup_cons, ← ih]
    cases dropRepeats rest with
    | nil => rw [Json.lookup_cons]
    | cons f fs =>
      dsimp only
      split
      · next he =>
        rw [Json.lookup_cons, Json.lookup_cons, ← he]
        split <;> rfl
      · rw [Json.lookup_cons]

theorem nodup_dropRepeats (h : es.Pairwise fun a b ↦ precedes a.1 b.1 = true) :
    ((dropRepeats es).map Prod.fst).Nodup := by
  induction es with
  | nil => exact List.nodup_nil
  | cons e rest ih =>
    obtain ⟨hfirst, hrest⟩ := List.pairwise_cons.1 h
    have hnodup := ih hrest
    have hsub := dropRepeats_sublist rest
    rw [dropRepeats]
    cases hr : dropRepeats rest with
    | nil => exact List.nodup_singleton _
    | cons f fs =>
      rw [hr] at hnodup hsub
      obtain ⟨hf, hfs⟩ := List.nodup_cons.1 hnodup
      dsimp only
      split
      · next he => exact List.nodup_cons.2 ⟨he ▸ hf, hfs⟩
      · next hne =>
        refine List.nodup_cons.2 ⟨fun hm ↦ ?_, hnodup⟩
        obtain ⟨g, hg, he⟩ := List.mem_map.1 hm
        rcases List.mem_cons.1 hg with rfl | hg
        · exact hne he.symm
        · have hfg := (List.pairwise_cons.1 (hrest.sublist hsub)).1 g hg
          rw [he] at hfg
          exact hne (precedes_antisymm (hfirst f (hsub.subset List.mem_cons_self)) hfg)

theorem lookup_eq_head? (es : List (String × String)) (route : String) :
    es.lookup route = ((es.filter (·.1 = route)).head?).map Prod.snd := by
  induction es with
  | nil => rfl
  | cons e rest ih =>
    rw [Json.lookup_cons]
    split
    · next he => rw [List.filter_cons_of_pos (by simp [he])]; rfl
    · next he => rw [List.filter_cons_of_neg (by simpa using Ne.symm he), ih]

theorem filter_of_perm {α : Type} {p : α → Bool} {l l' : List α} (hp : l'.Perm l)
    (hs : (l.filter p).Sublist l') : l'.filter p = l.filter p := by
  have hsub := hs.filter p
  rw [List.filter_filter] at hsub
  simp only [Bool.and_self] at hsub
  exact (hsub.eq_of_length (hp.filter p).length_eq.symm).symm

theorem lookup_mergeSort (es : List (String × String)) (route : String) :
    (es.mergeSort fun a b ↦ precedes a.1 b.1).lookup route = es.lookup route := by
  have hsorted : (es.filter (·.1 = route)).Pairwise fun a b ↦ precedes a.1 b.1 = true := by
    rw [List.pairwise_iff_forall_sublist]
    intro a b hab
    have hroute : ∀ e ∈ [a, b], e.1 = route := fun e he ↦ by
      simpa using (List.mem_filter.1 (hab.subset he)).2
    rw [hroute a (by simp), hroute b (by simp), precedes_iff]
    exact .inr ⟨rfl, le_refl route⟩
  have hsub := List.sublist_mergeSort entries_trans entries_total hsorted List.filter_sublist
  rw [lookup_eq_head?, lookup_eq_head?, filter_of_perm (List.mergeSort_perm es _) hsub]

end Entries

variable {ids : List String} {id route : String}

theorem ofIds_nil : ofIds [] = empty := by
  rw [ofIds, List.filterMap_nil, List.mergeSort_nil]
  rfl

theorem ofIds_singleton (h : pageRoute? id = some route) :
    ofIds [id] = ⟨[(route, id)]⟩ := by
  have hentries : ([id].filterMap fun id ↦ (pageRoute? id).map fun route ↦ (route, id)) =
      [(route, id)] := by
    rw [List.filterMap_cons, h]
    rfl
  rw [ofIds, hentries, List.mergeSort_singleton]
  rfl

theorem pairwise_routes (ids : List String) :
    (ofIds ids).routes.Pairwise (fun a b ↦ precedes a b = true) ∧ (ofIds ids).routes.Nodup := by
  have hsorted := List.pairwise_mergeSort entries_trans entries_total
    (ids.filterMap fun id ↦ (pageRoute? id).map fun route ↦ (route, id))
  refine ⟨List.pairwise_map.2 ?_, nodup_dropRepeats hsorted⟩
  exact hsorted.sublist (dropRepeats_sublist _)

theorem moduleId?_ofIds (ids : List String) (route : String) :
    (ofIds ids).moduleId? route = ids.find? fun id ↦ pageRoute? id = some route := by
  rw [moduleId?, ofIds]
  dsimp only
  rw [lookup_dropRepeats, lookup_mergeSort]
  induction ids with
  | nil => rfl
  | cons id ids ih =>
    cases hr : pageRoute? id with
    | none =>
      rw [List.filterMap_cons_none (by rw [hr]; rfl), ih, List.find?_cons_of_neg (by simp [hr])]
    | some r =>
      rw [List.filterMap_cons_some (by rw [hr]; rfl), Json.lookup_cons]
      by_cases he : route = r
      · rw [if_pos he, List.find?_cons_of_pos (by simp [hr, he])]
      · rw [if_neg he, ih, List.find?_cons_of_neg (by simpa [hr] using Ne.symm he)]

theorem mem_routes : route ∈ (ofIds ids).routes ↔ ∃ id ∈ ids, pageRoute? id = some route := by
  have hmem : ∀ es : List (String × String), route ∈ es.map Prod.fst ↔ (es.lookup route).isSome := by
    intro es
    rw [lookup_eq_head?, Option.isSome_map, List.isSome_head?]
    simp [List.filter_eq_nil_iff]
  rw [routes, hmem, ← moduleId?, moduleId?_ofIds, List.find?_isSome]
  simp

theorem le_of_find? {p : String → Bool} (h : ids.Pairwise fun a b ↦ a ≤ b)
    (hf : ids.find? p = some id) : ∀ id' ∈ ids, p id' = true → id ≤ id' := by
  obtain ⟨hp, before, after, rfl, hbefore⟩ := List.find?_eq_some_iff_append.1 hf
  intro id' hm hp'
  rcases List.mem_append.1 hm with hm | hm
  · exact absurd hp' (by simpa using hbefore id' hm)
  · rcases List.mem_cons.1 hm with rfl | hm
    · exact le_refl id'
    · exact (List.pairwise_cons.1 (List.pairwise_append.1 h).2.1).1 id' hm

theorem find?_congr {ids' : List String} {p : String → Bool} (h : ids.Pairwise fun a b ↦ a ≤ b)
    (h' : ids'.Pairwise fun a b ↦ a ≤ b) (hmem : ∀ id, p id = true → (id ∈ ids ↔ id ∈ ids')) :
    ids.find? p = ids'.find? p := by
  have hsome : ∀ {l l' : List String}, (∀ id, p id = true → (id ∈ l ↔ id ∈ l')) → ∀ {id : String},
      l.find? p = some id → id ∈ l' ∧ ∃ id', l'.find? p = some id' := fun hmem _ hf ↦ by
    have hm := (hmem _ (List.find?_some hf)).1 (List.mem_of_find?_eq_some hf)
    exact ⟨hm, Option.isSome_iff_exists.1 (List.find?_isSome.2 ⟨_, hm, List.find?_some hf⟩)⟩
  have hmem' : ∀ id, p id = true → (id ∈ ids' ↔ id ∈ ids) := fun id hp ↦ (hmem id hp).symm
  cases hf : ids.find? p with
  | none =>
    refine (Option.eq_none_iff_forall_ne_some.2 fun id' hf' ↦ ?_).symm
    obtain ⟨-, id, hid⟩ := hsome hmem' hf'
    rw [hf] at hid
    cases hid
  | some id =>
    obtain ⟨hm, id', hf'⟩ := hsome hmem hf
    obtain ⟨hm', -⟩ := hsome hmem' hf'
    rw [hf', le_antisymm (le_of_find? h hf id' hm' (List.find?_some hf'))
      (le_of_find? h' hf' id hm (List.find?_some hf))]

theorem ofIds_congr {ids' : List String} (h : ids.Pairwise fun a b ↦ a ≤ b)
    (h' : ids'.Pairwise fun a b ↦ a ≤ b)
    (hmem : ∀ id, (pageRoute? id).isSome → (id ∈ ids ↔ id ∈ ids')) : ofIds ids = ofIds ids' := by
  obtain ⟨hsorted, hnodup⟩ := pairwise_routes ids
  obtain ⟨hsorted', hnodup'⟩ := pairwise_routes ids'
  have hlookup : ∀ route, (ofIds ids).entries.lookup route = (ofIds ids').entries.lookup route := by
    intro route
    rw [← moduleId?, ← moduleId?, moduleId?_ofIds, moduleId?_ofIds]
    refine find?_congr h h' fun id hr ↦ hmem id ?_
    rw [of_decide_eq_true hr]
    rfl
  have hperm : (ofIds ids).entries.Perm (ofIds ids').entries :=
    (List.perm_ext_iff_of_nodup hnodup.of_map hnodup'.of_map).2 fun e ↦ by
      rw [← Json.lookup_eq_some_iff_mem hnodup, ← Json.lookup_eq_some_iff_mem hnodup', hlookup]
  have hentries := hperm.eq_of_pairwise (fun a b ha hb hab hba ↦ ?_) (List.pairwise_map.1 hsorted)
    (List.pairwise_map.1 hsorted')
  · rw [← PageTable.mk.injEq] at hentries
    exact hentries
  · have hroute := precedes_antisymm hab hba
    have hsame := (Json.lookup_eq_some_iff_mem hnodup).2 ha
    rw [hlookup, hroute, (Json.lookup_eq_some_iff_mem hnodup').2 hb] at hsame
    exact Prod.ext hroute (Option.some_inj.1 hsame).symm

/-- The ids of the modules that are found below a source directory: in normal form, without names that
are private. -/
def IsPublic (id : String) : Prop :=
  ModuleId.normalizeLocal id = id ∧ ∀ s ∈ Text.segments id, Discovery.isPrivate s = false

section Names

open ModuleId (IsSegment rooted stripExtension)

/-- A text that goes on with a dot consists of names if it then consists of names that are not private. -/
theorem isSegment_of_dot {path rest : String}
    (h : ∀ s ∈ Text.pieces '/' (path ++ ("." ++ rest)), IsSegment s ∧ Text.startsWith s "." = false) :
    ∀ s ∈ Text.pieces '/' path, IsSegment s := by
  obtain ⟨front, last, hpath⟩ := Text.exists_pieces '/' path
  obtain ⟨first, others, hrest⟩ := List.exists_cons_of_ne_nil (Text.pieces_ne_nil '/' rest)
  have hdot : Text.pieces '/' ("." ++ rest) = ("." ++ first) :: others :=
    Text.pieces_prepend (by decide) hrest
  rw [Text.pieces_meet hpath hdot] at h
  have hlast := (h (last ++ ("." ++ first)) (List.mem_append_right _ List.mem_cons_self)).2
  have hne : ∀ s : String, (∀ t, Text.startsWith (s ++ ("." ++ t)) "." = true) → last ≠ s := by
    rintro s hs rfl
    rw [hs] at hlast
    cases hlast
  intro s hs
  have hslash := Text.not_mem_of_mem_pieces hs
  rw [hpath] at hs
  rcases List.mem_append.1 hs with hs | hs
  · exact (h s (List.mem_append_left _ hs)).1
  · obtain rfl := List.mem_singleton.1 hs
    have hstarts : ∀ s ∈ ["", ".", ".."], ∀ t, Text.startsWith (s ++ ("." ++ t)) "." = true := by
      intro s hs t
      rw [Text.startsWith, String.toList_append, String.toList_append]
      simp only [List.mem_cons, List.not_mem_nil, or_false] at hs
      rcases hs with rfl | rfl | rfl <;> rfl
    exact ⟨hne "" (hstarts _ (by simp)), hne "." (hstarts _ (by simp)), hne ".." (hstarts _ (by simp)),
      hslash⟩

theorem rooted_pieces (path : String) : "/" ++ path = rooted (Text.pieces '/' path) := by
  have hpath : "/".intercalate (Text.pieces '/' path) = path := Text.intercalate_pieces '/' path
  rw [rooted, hpath]

theorem segments_rooted {names : List String} (h : ∀ s ∈ names, IsSegment s) :
    Text.segments (rooted names) = names := by
  by_cases hne : names = []
  · subst hne
    rfl
  · rw [ModuleId.rooted_eq_spelled hne, ModuleId.segments_spelled h]

theorem IsPublic.pieces (h : IsPublic ("/pages/" ++ route)) :
    ∀ s ∈ Text.pieces '/' route, IsSegment s ∧ Text.startsWith s "." = false := by
  obtain ⟨hnormal, hpublic⟩ := h
  have hall : ∀ s ∈ ModuleId.cleanSegments ("/pages/" ++ route), IsSegment s :=
    fun s ↦ ModuleId.isSegment_of_mem_cleanSegments
  rw [ModuleId.normalizeLocal] at hnormal
  rw [← hnormal, segments_rooted hall] at hpublic
  generalize ModuleId.cleanSegments ("/pages/" ++ route) = names at hnormal hpublic hall
  have hpieces : Text.pieces '/' ("/pages/" ++ route) = "" :: "pages" :: Text.pieces '/' route :=
    Text.pieces_append_sep '/' "/pages" route
  have hne : names ≠ [] := by
    rintro rfl
    rw [← hnormal] at hpieces
    have hlen := congrArg List.length hpieces
    have hpos := List.length_pos_of_ne_nil (Text.pieces_ne_nil '/' route)
    rw [show Text.pieces '/' (rooted []) = ["", ""] by decide] at hlen
    simp only [List.length_cons, List.length_nil] at hlen
    omega
  rw [← hnormal, ModuleId.pieces_rooted hne hall] at hpieces
  obtain rfl := (List.cons.inj hpieces).2
  intro s hs
  have hm := List.mem_cons_of_mem "pages" hs
  refine ⟨hall s hm, ?_⟩
  have hprivate := hpublic s hm
  rw [Discovery.isPrivate, Bool.or_eq_false_iff] at hprivate
  exact hprivate.1

theorem exists_names (h : IsPublic id) (hr : pageRoute? id = some route) :
    ∃ names, (∀ s ∈ names, IsSegment s) ∧ route = rooted names := by
  simp only [pageRoute?, Option.bind_eq_bind, Option.bind_eq_some_iff] at hr
  obtain ⟨rest, hrest, dialect, hd, hr⟩ := hr
  obtain rfl := Text.dropStart?_eq_some.1 hrest
  have hpieces := h.pieces
  have hpath : ∀ s ∈ Text.pieces '/' (stripExtension rest), IsSegment s := by
    unfold stripExtension
    split
    · next hcut =>
      obtain ⟨he, -⟩ := Text.cutLast?_eq_some.1 hcut
      rw [he, String.append_assoc] at hpieces
      exact isSegment_of_dot hpieces
    · exact fun s hs ↦ (hpieces s hs).1
  generalize stripExtension rest = path at hr hpath
  obtain rfl := Option.some_inj.1 hr
  split
  · exact ⟨[], fun _ hs ↦ (List.not_mem_nil hs).elim, rfl⟩
  · cases hi : Text.dropEnd? "/index" path with
    | none => exact ⟨_, hpath, rooted_pieces path⟩
    | some front =>
      refine ⟨Text.pieces '/' front, fun s hs ↦ hpath s ?_, rooted_pieces front⟩
      have hfront : path = front ++ String.singleton '/' ++ "index" := by
        rw [Text.dropEnd?_eq_some.1 hi, String.append_assoc]
        rfl
      rw [hfront, Text.pieces_append_sep]
      exact List.mem_append_left _ hs

theorem eq_of_segments {route' : String} (hids : ∀ id ∈ ids, IsPublic id)
    (h : route ∈ (ofIds ids).routes) (h' : route' ∈ (ofIds ids).routes)
    (hs : Text.segments route = Text.segments route') : route = route' := by
  obtain ⟨id, hid, hr⟩ := mem_routes.1 h
  obtain ⟨id', hid', hr'⟩ := mem_routes.1 h'
  obtain ⟨names, hnames, rfl⟩ := exists_names (hids id hid) hr
  obtain ⟨names', hnames', rfl⟩ := exists_names (hids id' hid') hr'
  rw [segments_rooted hnames, segments_rooted hnames'] at hs
  rw [hs]

end Names

/-- Of routes in order that are told apart by their segments, routing takes the one that serves the
segments. -/
theorem selects_findSome? {routes segments : List String} (fallback : Option String)
    (hs : routes.Pairwise fun a b ↦ precedes a b = true) :
    let selected := (routes.findSome? fun p ↦ (match? p segments).map (p, ·)).getD
      (fallback.getD "", [])
    Selects routes fallback segments selected.1 selected.2 := by
  intro selected
  dsimp only [selected]
  cases hf : routes.findSome? fun p ↦ (match? p segments).map (p, ·) with
  | none =>
    rw [List.findSome?_eq_none_iff] at hf
    exact .fallback fun r hr ↦ match?_eq_none.1 (Option.map_eq_none_iff.1 (hf r hr))
  | some found =>
    obtain ⟨before, route, after, hsplit, hfound, hbefore⟩ := List.findSome?_eq_some_iff.1 hf
    obtain ⟨params, hmatch, rfl⟩ := Option.map_eq_some_iff.1 hfound
    have hmem : route ∈ routes := by
      rw [hsplit]
      exact List.mem_append_right _ List.mem_cons_self
    have hlater : ∀ r ∈ routes, match? r segments ≠ none → r = route ∨ precedes route r = true := by
      intro r hr hne
      rw [hsplit] at hr hs
      rcases List.mem_append.1 hr with hr | hr
      · exact absurd (Option.map_eq_none_iff.1 (hbefore r hr)) hne
      · rcases List.mem_cons.1 hr with rfl | hr
        · exact .inl rfl
        · exact .inr ((List.pairwise_cons.1 (List.pairwise_append.1 hs).2.1).1 r hr)
    by_cases hdynamic : Captures route
    · obtain ⟨captures, hfits, htaken⟩ := match?_eq_some.1 hmatch
      refine .dynamic (fun r hr hstatic he ↦ ?_) hmem hdynamic hfits htaken fun r hr hr' ⟨c, hc⟩ ↦ ?_
      · have hne : match? r segments ≠ none := by
          rw [(match?_static hstatic).2 ⟨he, rfl⟩]
          exact Option.some_ne_none _
        rcases hlater r hr hne with rfl | hp
        · exact hstatic hdynamic
        · rw [precedes_iff, isDynamic_iff.2 hdynamic] at hp
          rw [← isDynamic_iff] at hstatic
          rcases hp with ⟨hp, -⟩ | ⟨hp, -⟩
          · cases hp
          · exact hstatic hp.symm
      · rcases hlater r hr fun hnone ↦ match?_eq_none.1 hnone ⟨c, hc⟩ with rfl | hp
        · exact le_refl r
        · rw [precedes_iff, isDynamic_iff.2 hdynamic, isDynamic_iff.2 hr'] at hp
          rcases hp with ⟨hp, -⟩ | ⟨-, hp⟩
          · cases hp
          · exact hp
    · obtain ⟨hsegments, rfl⟩ := (match?_static hdynamic).1 hmatch
      exact .static hmem hdynamic hsegments

/-- Routing over the table of public modules: the segments that remain of a location are served by the
static route that they spell, else by the least dynamic route that matches them, else by the fallback.
The table has one entry for each route, with the first module that has it. -/
theorem selects_ofIds (hids : ∀ id ∈ ids, IsPublic id) (baseUrl location : String)
    (options : Route.Options) :
    (∃ segments, Route.Remains baseUrl location options segments ∧ ∀ path params,
      Selects (ofIds ids).routes options.fallback segments path params ↔
        (Route.route baseUrl (ofIds ids).routes location options).pagePath = path ∧
          (Route.route baseUrl (ofIds ids).routes location options).params = params) ∧
    (ofIds ids).routes.Nodup ∧
    ∀ route, (ofIds ids).moduleId? route = ids.find? fun id ↦ pageRoute? id = some route := by
  obtain ⟨hsorted, hnodup⟩ := pairwise_routes ids
  refine ⟨⟨_, Route.remains_segmentsOf baseUrl location options, ?_⟩, hnodup, moduleId?_ofIds ids⟩
  have hselected := @selects_findSome? _ (Route.segmentsOf baseUrl location options)
    options.fallback hsorted
  dsimp only at hselected
  rw [← Route.route_eq] at hselected
  intro path params
  constructor
  · exact fun h ↦ hselected.unique (fun r hr r' hr' ↦ eq_of_segments hids hr hr') h
  · rintro ⟨rfl, rfl⟩
    exact hselected

/-- Two pages with one route, a static page beside a dynamic one, and one that takes what is left. -/
def blogIds : List String :=
  ["/pages/blog/$year/*path.js", "/pages/blog/index.ts", "/pages/blog.js", "/pages/blog/$year.js"]

theorem selects_blogIds : (∀ id ∈ blogIds, IsPublic id) ∧
    (∃ segments, Route.Remains "/base" "/base/de/blog/%61/b/c?x#y" ⟨none, ["de"], "en"⟩ segments ∧
      ∀ path params, Selects (ofIds blogIds).routes none segments path params ↔
        (Route.route "/base" (ofIds blogIds).routes "/base/de/blog/%61/b/c?x#y"
          ⟨none, ["de"], "en"⟩).pagePath = path ∧
        (Route.route "/base" (ofIds blogIds).routes "/base/de/blog/%61/b/c?x#y"
          ⟨none, ["de"], "en"⟩).params = params) ∧
    (ofIds blogIds).routes.Nodup ∧
    (ofIds blogIds).moduleId? "/blog" = some "/pages/blog/index.ts" := by
  have hids : ∀ id ∈ blogIds, IsPublic id := by
    unfold IsPublic
    decide +kernel
  obtain ⟨hselects, hnodup, hmodule⟩ :=
    selects_ofIds hids "/base" "/base/de/blog/%61/b/c?x#y" ⟨none, ["de"], "en"⟩
  refine ⟨hids, hselects, hnodup, ?_⟩
  rw [hmodule]
  decide +kernel

end PageTable
end SiteCompiler
