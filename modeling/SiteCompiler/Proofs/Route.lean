import SiteCompiler.Proofs.Json.Members
import SiteCompiler.Proofs.Text.Cutting
import SiteCompiler.Proofs.Text.Utf8
import SiteCompiler.Route

namespace SiteCompiler

namespace Text.Percent

variable {p : Char → Bool}

theorem hexValue?_hexDigit : ∀ n < 16, hexValue? (hexDigit n) = some n := by
  decide

theorem octets_encodeOctet (b : UInt8) (rest : List Char) :
    octets (encodeOctet b ++ rest) = b :: octets rest := by
  have hb := b.toNat_lt
  change octets ('%' :: hexDigit (b.toNat / 16) :: hexDigit (b.toNat % 16) :: rest) = _
  rw [octets, hexValue?_hexDigit _ (by omega), hexValue?_hexDigit _ (by omega)]
  dsimp only
  rw [Nat.div_add_mod', Nat.toUInt8_eq, UInt8.ofNat_toNat]

theorem octets_flatMap_encodeOctet (bs : List UInt8) (rest : List Char) :
    octets (bs.flatMap encodeOctet ++ rest) = bs ++ octets rest := by
  induction bs with
  | nil => rfl
  | cons b bs ih => rw [List.flatMap_cons, List.append_assoc, octets_encodeOctet, ih, List.cons_append]

theorem octets_cons_of_ne {c : Char} (hc : c ≠ '%') (rest : List Char) :
    octets (c :: rest) = Utf8.encodeChar c ++ octets rest := by
  rw [octets]
  rintro h l rest' rfl -
  exact hc rfl

/-- Escaping and reading the escapes changes no octet, as long as `%` itself is escaped. -/
theorem octets_encodeChar (hp : p '%' = true) (c : Char) (rest : List Char) :
    octets (encodeChar p c ++ rest) = Utf8.encodeChar c ++ octets rest := by
  rw [encodeChar]
  split
  · exact octets_flatMap_encodeOctet _ _
  · next h =>
    refine octets_cons_of_ne ?_ rest
    rintro rfl
    exact h (by rw [hp]; rfl)

theorem octets_encode (hp : p '%' = true) (s : String) :
    octets (encode p s).toList = Utf8.encode s := by
  rw [encode, String.toList_ofList, Utf8.encode]
  generalize s.toList = chars
  induction chars with
  | nil => rfl
  | cons c chars ih => rw [List.flatMap_cons, octets_encodeChar hp, ih, List.flatMap_cons]

theorem decodeLossy_encode (hp : p '%' = true) (s : String) : decodeLossy (encode p s) = s := by
  rw [decodeLossy, octets_encode hp, Utf8.decodeLossy_encode, String.ofList_toList]

end Text.Percent
namespace Route

open Text (dropStart?_eq_some dropStart?_eq_none)
open Text.Percent (decodeLossy)

def pathOf (location : String) : String :=
  Text.before (fun c ↦ c = '?' || c = '#') location

theorem cutQuery_fst (location : String) : (cutQuery location).1 = pathOf location := by
  have hlist : ∀ cs : List Char, (cs.takeWhile fun c ↦ !decide (c = '?')).takeWhile
      (fun c ↦ !decide (c = '#')) = cs.takeWhile fun c ↦ !(decide (c = '?') || decide (c = '#')) := by
    intro cs
    rw [List.takeWhile_takeWhile]
    congr 1
    funext c
    rw [Bool.decide_and, Bool.decide_eq_true, Bool.decide_eq_true, Bool.not_or, Bool.and_comm]
  have hpath : (((Text.cutFirst? (· = '?') location).getD (location, "")).1).toList =
      location.toList.takeWhile fun c ↦ !decide (c = '?') := by
    rw [Text.cutFirst?]
    split
    · next hnone =>
      rw [Option.getD_none]
      exact (List.takeWhile_eq_self_iff.2 (List.dropWhile_eq_nil_iff.1 hnone)).symm
    · rw [Option.getD_some, String.toList_ofList]
  rw [pathOf, Text.before, cutQuery, ← hlist, ← hpath]
  rfl

theorem cutQuery_of_plain {location : String} (h : ∀ c ∈ location.toList, c ≠ '?' ∧ c ≠ '#') :
    cutQuery location = (location, "") := by
  have hfirst : Text.cutFirst? (· = '?') location = none := by
    rw [Text.cutFirst?, List.dropWhile_eq_nil_iff.2 fun c hc ↦ by simp [(h c hc).1]]
  rw [cutQuery, hfirst, Option.getD_none]
  dsimp only
  rw [Text.before_eq_self fun c hc ↦ decide_eq_false (h c hc).2]

def Below (baseUrl path rest : String) : Prop :=
  (path = baseUrl ++ rest ∧ (rest = "" ∨ Text.startsWith rest "/")) ∨
    rest = path ∧ ∀ r, path = baseUrl ++ r → r ≠ "" ∧ ¬Text.startsWith r "/"

/-- The segments of a location that are to be matched: those of its path below the base, without a
locale that leads them. -/
def Remains (baseUrl location : String) (options : Options) (segments : List String) : Prop :=
  ∃ rest, Below baseUrl (pathOf location) rest ∧
    ((∃ locale ∈ options.locales, Text.segments rest = locale :: segments) ∨
      Text.segments rest = segments ∧ ∀ first ∈ segments.head?, first ∉ options.locales)

theorem segments_belowBase (baseUrl path : String) : ∃ rest, Below baseUrl path rest ∧
    Text.segments (belowBase baseUrl path) = Text.segments rest := by
  by_cases hbelow : ∃ rest, path = baseUrl ++ rest ∧ (rest = "" ∨ Text.startsWith rest "/")
  · obtain ⟨rest, rfl, hrest⟩ := hbelow
    refine ⟨rest, .inl ⟨rfl, hrest⟩, ?_⟩
    rw [belowBase]
    split
    · next hroot =>
      subst hroot
      have hpieces := Text.pieces_append_sep '/' "" rest
      rw [Text.segments, Text.segments, show "/" ++ rest = "" ++ String.singleton '/' ++ rest from rfl,
        hpieces, Text.pieces_empty, List.singleton_append, List.filter_cons_of_neg (by simp)]
    · rw [Text.dropStart?_append]
      dsimp only
      rw [if_pos]
      rcases hrest with rfl | hrest
      · rfl
      · rw [hrest, Bool.or_true]
  · have hnot : ∀ r, path = baseUrl ++ r → r ≠ "" ∧ ¬Text.startsWith r "/" := fun r hr ↦
      not_or.1 fun h ↦ hbelow ⟨r, hr, h⟩
    refine ⟨path, .inr ⟨rfl, hnot⟩, ?_⟩
    rw [belowBase]
    split
    · rfl
    · split
      · next rest hrest =>
        obtain ⟨hne, hslash⟩ := hnot rest (dropStart?_eq_some.1 hrest)
        rw [if_neg]
        simp [hne, hslash]
      · rfl

def segmentsOf (baseUrl location : String) (options : Options) : List String :=
  (cutLocale options (Text.segments (belowBase baseUrl (cutQuery location).1))).2

theorem remains_segmentsOf (baseUrl location : String) (options : Options) :
    Remains baseUrl location options (segmentsOf baseUrl location options) := by
  obtain ⟨rest, hbelow, hsegments⟩ := segments_belowBase baseUrl (pathOf location)
  refine ⟨rest, hbelow, ?_⟩
  rw [segmentsOf, cutQuery_fst, hsegments]
  cases hs : Text.segments rest with
  | nil => exact .inr ⟨rfl, fun _ h ↦ by cases h⟩
  | cons first others =>
    rw [cutLocale]
    split
    · next hfirst => exact .inl ⟨first, List.contains_iff_mem.1 hfirst, rfl⟩
    · next hfirst =>
      refine .inr ⟨rfl, fun x hx ↦ ?_⟩
      obtain rfl := Option.some_inj.1 hx
      exact fun hm ↦ hfirst (List.contains_iff_mem.2 hm)

/-- A pattern matches segments, with the captures in their order. A part `*name` takes what is left,
whatever parts are behind it. -/
inductive Matches : List String → List String → List (String × String) → Prop
  | nil : Matches [] [] []
  | literal {part : String} {parts segments : List String} {captures : List (String × String)}
      (star : Text.startsWith part "*" = false) (dollar : Text.startsWith part "$" = false)
      (rest : Matches parts segments captures) :
      Matches (part :: parts) (part :: segments) captures
  | one {name segment : String} {parts segments : List String} {captures : List (String × String)}
      (rest : Matches parts segments captures) :
      Matches (("$" ++ name) :: parts) (segment :: segments) ((name, decodeLossy segment) :: captures)
  | rest {name : String} {parts segments : List String} (some : segments ≠ []) :
      Matches (("*" ++ name) :: parts) segments
        [(name, "/".intercalate (segments.map decodeLossy))]

/-- The parameters that captures give rise to: one for each name, with what the name captured last. -/
structure Params (captures params : List (String × String)) : Prop where
  ordered : Json.Ordered params
  lookup : ∀ name, params.lookup name = captures.reverse.lookup name

theorem params_iff {captures params : List (String × String)} :
    Params captures params ↔ params = Json.sortMembers captures := by
  have h : Params captures (Json.sortMembers captures) :=
    ⟨Json.ordered_sortMembers captures, Json.lookup_sortMembers captures⟩
  constructor
  · exact fun hp ↦ hp.ordered.ext h.ordered fun k ↦ (hp.lookup k).trans (h.lookup k).symm
  · rintro rfl
    exact h

variable {parts segments : List String} {captures params result : List (String × String)}

theorem dollar_not_star (name : String) : Text.startsWith ("$" ++ name) "*" = false := by
  rw [Text.startsWith, String.toList_append]
  rfl

theorem exists_of_matchParts (h : matchParts params parts segments = some result) :
    ∃ captures, Matches parts segments captures ∧
      captures.foldl (fun sorted c ↦ Json.insertMember c.1 c.2 sorted) params = result := by
  fun_induction matchParts params parts segments with
  | case1 params => exact ⟨[], .nil, Option.some_inj.1 h⟩
  | case2 => cases h
  | case3 => cases h
  | case4 params part parts segments name hname hsome =>
    obtain rfl := dropStart?_eq_some.1 hname
    exact ⟨_, .rest fun he ↦ hsome (List.isEmpty_iff.2 he), Option.some_inj.1 h⟩
  | case5 => cases h
  | case6 params part parts hstar segment rest name hname ih =>
    obtain rfl := dropStart?_eq_some.1 hname
    obtain ⟨captures, hm, hc⟩ := ih h
    exact ⟨_, .one hm, hc⟩
  | case7 params parts part rest hstar hdollar ih =>
    obtain ⟨captures, hm, hc⟩ := ih h
    exact ⟨captures, .literal (dropStart?_eq_none.1 hstar) (dropStart?_eq_none.1 hdollar) hm, hc⟩
  | case8 => cases h

theorem Matches.matchParts (h : Matches parts segments captures) (params : List (String × String)) :
    matchParts params parts segments =
      some (captures.foldl (fun sorted c ↦ Json.insertMember c.1 c.2 sorted) params) := by
  induction h generalizing params with
  | nil => rfl
  | literal star dollar rest ih =>
    rw [Route.matchParts, dropStart?_eq_none.2 star]
    dsimp only
    rw [dropStart?_eq_none.2 dollar]
    dsimp only
    rw [if_pos rfl, ih]
  | one rest ih =>
    rw [Route.matchParts, dropStart?_eq_none.2 (dollar_not_star _)]
    dsimp only
    rw [Text.dropStart?_append]
    exact ih _
  | rest hsome =>
    rw [Route.matchParts.eq_def]
    dsimp only
    rw [Text.dropStart?_append]
    dsimp only
    rw [if_neg fun he ↦ hsome (List.isEmpty_iff.1 he)]
    rfl

/-- A page path is found to match exactly if it does, with the parameters of its captures. -/
theorem match?_eq_some {pagePath : String} : match? pagePath segments = some params ↔
    ∃ captures, Matches (Text.segments pagePath) segments captures ∧ Params captures params := by
  simp only [params_iff]
  constructor
  · intro h
    obtain ⟨captures, hm, hc⟩ := exists_of_matchParts h
    exact ⟨captures, hm, hc.symm⟩
  · rintro ⟨captures, hm, rfl⟩
    exact hm.matchParts []

def Captures (pagePath : String) : Prop :=
  ∃ part ∈ Text.segments pagePath, Text.startsWith part "$" ∨ Text.startsWith part "*"

theorem isDynamic_iff {pagePath : String} : isDynamic pagePath = true ↔ Captures pagePath := by
  rw [isDynamic, List.any_eq_true]
  constructor
  · rintro ⟨part, hm, hp⟩
    rw [Bool.or_eq_true] at hp
    refine ⟨part, List.mem_filter.2 ⟨hm, decide_eq_true ?_⟩, hp⟩
    rintro rfl
    exact hp.elim (by decide) (by decide)
  · rintro ⟨part, hm, hp⟩
    exact ⟨part, (List.mem_filter.1 hm).1, Bool.or_eq_true _ _ ▸ hp⟩

theorem matches_literals (h : ∀ part ∈ parts, ¬(Text.startsWith part "$" ∨ Text.startsWith part "*")) :
    Matches parts segments captures ↔ segments = parts ∧ captures = [] := by
  constructor
  · intro hm
    induction hm with
    | nil => exact ⟨rfl, rfl⟩
    | literal _ _ _ ih =>
      obtain ⟨rfl, rfl⟩ := ih fun part hp ↦ h part (List.mem_cons_of_mem _ hp)
      exact ⟨rfl, rfl⟩
    | one _ => exact absurd (.inl (Text.startsWith_iff.2 ⟨_, rfl⟩)) (h _ List.mem_cons_self)
    | rest _ => exact absurd (.inr (Text.startsWith_iff.2 ⟨_, rfl⟩)) (h _ List.mem_cons_self)
  · rintro ⟨rfl, rfl⟩
    induction segments with
    | nil => exact .nil
    | cons segment segments ih =>
      obtain ⟨hdollar, hstar⟩ := not_or.1 (h segment List.mem_cons_self)
      exact .literal (Bool.eq_false_iff.2 hstar) (Bool.eq_false_iff.2 hdollar)
        (ih fun part hp ↦ h part (List.mem_cons_of_mem _ hp))

theorem match?_static {pagePath : String} (h : ¬Captures pagePath) :
    match? pagePath segments = some params ↔ segments = Text.segments pagePath ∧ params = [] := by
  have hparts : ∀ part ∈ Text.segments pagePath,
      ¬(Text.startsWith part "$" ∨ Text.startsWith part "*") := fun part hm hp ↦ h ⟨part, hm, hp⟩
  rw [match?_eq_some]
  simp only [matches_literals hparts]
  constructor
  · rintro ⟨_, ⟨rfl, rfl⟩, hp⟩
    exact ⟨rfl, params_iff.1 hp⟩
  · rintro ⟨rfl, rfl⟩
    exact ⟨[], ⟨rfl, rfl⟩, params_iff.2 rfl⟩

/-- What routing comes to: the first page path that matches, else the fallback without parameters. -/
theorem route_eq_mk (baseUrl : String) (pagePaths : List String) (location : String)
    (options : Options) :
    let segments := segmentsOf baseUrl location options
    let selected := (pagePaths.findSome? fun p ↦ (match? p segments).map (p, ·)).getD
      (options.fallback.getD "", [])
    route baseUrl pagePaths location options =
      ⟨baseUrl, (cutLocale options (Text.segments (belowBase baseUrl (cutQuery location).1))).1,
        "/" ++ "/".intercalate segments, selected.1, selected.2, (cutQuery location).2⟩ := by
  have hmap : ∀ (f : String → List (String × String) → Location) (segments : List String),
      (pagePaths.findSome? fun p ↦ (match? p segments).map (f p)) =
        (pagePaths.findSome? fun p ↦ (match? p segments).map (p, ·)).map fun x ↦ f x.1 x.2 := by
    intro f segments
    rw [List.map_findSome?]
    congr 1
    funext p
    rw [Function.comp_apply, Option.map_map]
    rfl
  rw [route]
  dsimp only
  rw [hmap, ← segmentsOf]
  cases pagePaths.findSome? _ <;> rfl

theorem route_eq (baseUrl : String) (pagePaths : List String) (location : String)
    (options : Options) :
    ((route baseUrl pagePaths location options).pagePath,
      (route baseUrl pagePaths location options).params) =
      (pagePaths.findSome? fun p ↦ (match? p (segmentsOf baseUrl location options)).map (p, ·)).getD
        (options.fallback.getD "", []) := by
  rw [route_eq_mk]

end Route
end SiteCompiler
