import Mathlib
import SiteCompiler.Text.Cutting

namespace SiteCompiler.Text

variable {sep : Char}

theorem pieces_ne_nil (sep : Char) (s : String) : pieces sep s ≠ [] := by
  simp [pieces]

@[simp] theorem pieces_empty (sep : Char) : pieces sep "" = [""] := rfl

theorem pieces_append_sep (sep : Char) (a b : String) :
    pieces sep (a ++ String.singleton sep ++ b) = pieces sep a ++ pieces sep b := by
  simp only [pieces, String.toList_append, String.toList_singleton, List.append_assoc,
    List.cons_append, List.nil_append, List.splitOn_append_cons_self, List.map_append]

theorem pieces_of_not_mem {s : String} (h : sep ∉ s.toList) : pieces sep s = [s] := by
  rw [pieces, List.splitOn_eq_singleton h, List.map_singleton, String.ofList_toList]

theorem exists_pieces (sep : Char) (s : String) : ∃ front last, pieces sep s = front ++ [last] :=
  ⟨_, _, (List.dropLast_concat_getLast (pieces_ne_nil sep s)).symm⟩

theorem splitOn_append_of_not_mem {ending : List Char} (h : sep ∉ ending) {cs last : List Char}
    {front : List (List Char)} (hs : cs.splitOn sep = front ++ [last]) :
    (cs ++ ending).splitOn sep = front ++ [last ++ ending] := by
  induction cs generalizing front last with
  | nil =>
    rw [List.splitOn_nil] at hs
    cases front with
    | nil =>
      obtain rfl := (List.cons.inj hs).1
      rw [List.nil_append, List.splitOn_eq_singleton h]
      rfl
    | cons p front => simp at hs
  | cons c cs ih =>
    obtain ⟨front', last', hi⟩ : ∃ f l, cs.splitOn sep = f ++ [l] :=
      ⟨_, _, (List.dropLast_concat_getLast (List.splitOn_ne_nil sep cs)).symm⟩
    rw [List.splitOn_cons_eq_if_modifyHead, hi] at hs
    rw [List.cons_append, List.splitOn_cons_eq_if_modifyHead, ih hi]
    by_cases hc : (c == sep) = true
    · rw [if_pos hc, ← List.cons_append] at hs
      rw [if_pos hc]
      obtain ⟨rfl, hl⟩ := List.append_inj' hs rfl
      rw [(List.cons.inj hl).1]
      rfl
    · rw [if_neg hc] at hs ⊢
      cases front' with
      | nil =>
        cases front with
        | nil => rw [← (List.cons.inj hs).1]; rfl
        | cons p front => simp at hs
      | cons p front' =>
        rw [List.cons_append, List.modifyHead_cons, ← List.cons_append] at hs
        obtain ⟨rfl, hl⟩ := List.append_inj' hs rfl
        rw [(List.cons.inj hl).1]
        rfl

theorem pieces_append {s ending last : String} {front : List String} (h : sep ∉ ending.toList)
    (hs : pieces sep s = front ++ [last]) : pieces sep (s ++ ending) = front ++ [last ++ ending] := by
  have hl : s.toList.splitOn sep = front.map String.toList ++ [last.toList] := by
    have hm := congrArg (List.map String.toList) hs
    have hid : String.toList ∘ String.ofList = id := funext fun _ ↦ String.toList_ofList
    rwa [pieces, List.map_map, List.map_append, List.map_singleton, hid, List.map_id] at hm
  have hid : String.ofList ∘ String.toList = id := funext fun _ ↦ String.ofList_toList
  rw [pieces, String.toList_append, splitOn_append_of_not_mem h hl, List.map_append, List.map_map,
    List.map_singleton, ← String.toList_append, String.ofList_toList, hid, List.map_id]

theorem not_mem_of_mem_pieces {s piece : String} (h : piece ∈ pieces sep s) :
    sep ∉ piece.toList := by
  have hlist : ∀ (cs : List Char), ∀ l ∈ cs.splitOn sep, sep ∉ l := by
    intro cs
    induction cs with
    | nil => intro l hl; rw [List.splitOn_nil, List.mem_singleton] at hl; simp [hl]
    | cons c cs ih =>
      intro l hl
      rw [List.splitOn_cons_eq_if_modifyHead] at hl
      split at hl
      · rcases List.mem_cons.1 hl with rfl | hl
        · exact List.not_mem_nil
        · exact ih l hl
      · next hc =>
        obtain ⟨p, ps, hp⟩ := List.exists_cons_of_ne_nil (List.splitOn_ne_nil sep cs)
        rw [hp, List.modifyHead_cons] at hl
        rw [hp] at ih
        rcases List.mem_cons.1 hl with rfl | hl
        · intro hm
          rcases List.mem_cons.1 hm with rfl | hm
          · simp at hc
          · exact ih p List.mem_cons_self hm
        · exact ih l (List.mem_cons_of_mem p hl)
  obtain ⟨l, hl, rfl⟩ := List.mem_map.1 h
  rw [String.toList_ofList]
  exact hlist _ l hl

theorem pieces_intercalate {ps : List String} (hn : ps ≠ []) (h : ∀ p ∈ ps, sep ∉ p.toList) :
    pieces sep ((String.singleton sep).intercalate ps) = ps := by
  induction ps with
  | nil => exact absurd rfl hn
  | cons p ps ih =>
    cases ps with
    | nil => exact pieces_of_not_mem (h p List.mem_cons_self)
    | cons q qs =>
      rw [String.intercalate_cons_cons, pieces_append_sep,
        pieces_of_not_mem (h p List.mem_cons_self),
        ih (List.cons_ne_nil q qs) fun r hr ↦ h r (List.mem_cons_of_mem p hr)]
      rfl

theorem pieces_inj {s t : String} : pieces sep s = pieces sep t ↔ s = t := by
  refine ⟨fun h ↦ ?_, congrArg (pieces sep)⟩
  have hid : String.toList ∘ String.ofList = id := funext fun _ ↦ String.toList_ofList
  have hlists := congrArg (List.map String.toList) h
  rw [pieces, pieces, List.map_map, List.map_map, hid, List.map_id, List.map_id] at hlists
  rw [← String.toList_inj, ← @List.intercalate_splitOn _ s.toList _ _ sep, hlists,
    List.intercalate_splitOn]

theorem intercalate_pieces (sep : Char) (s : String) :
    (String.singleton sep).intercalate (pieces sep s) = s :=
  pieces_inj.1 (pieces_intercalate (pieces_ne_nil sep s) fun _ h ↦ not_mem_of_mem_pieces h)

/-- Where two texts meet, the last piece of the one and the first of the other are one piece. -/
theorem pieces_meet {a b last first : String} {front rest : List String}
    (ha : pieces sep a = front ++ [last]) (hb : pieces sep b = first :: rest) :
    pieces sep (a ++ b) = front ++ (last ++ first) :: rest := by
  have hfirst : sep ∉ first.toList := not_mem_of_mem_pieces (s := b) (by
    rw [hb]
    exact List.mem_cons_self)
  have hmeet := pieces_append hfirst ha
  rcases rest with _ | ⟨second, rest⟩
  · have hsame : b = first := by
      rw [← intercalate_pieces sep b, hb, String.intercalate_singleton]
    rw [hsame, hmeet]
  · have hsplit : b = first ++ String.singleton sep ++ (String.singleton sep).intercalate
        (second :: rest) := by
      conv_lhs => rw [← intercalate_pieces sep b, hb, String.intercalate_cons_cons]
    have hrest : pieces sep ((String.singleton sep).intercalate (second :: rest)) = second :: rest :=
      pieces_intercalate (List.cons_ne_nil _ _) fun p hp ↦ not_mem_of_mem_pieces (s := b) (by
        rw [hb]
        exact List.mem_cons_of_mem _ hp)
    rw [hsplit, ← String.append_assoc, ← String.append_assoc, pieces_append_sep, hmeet, hrest,
      List.append_assoc]
    rfl

theorem pieces_prepend {start s first : String} {rest : List String} (h : sep ∉ start.toList)
    (hs : pieces sep s = first :: rest) : pieces sep (start ++ s) = (start ++ first) :: rest := by
  have hstart : pieces sep start = [] ++ [start] := pieces_of_not_mem h
  exact pieces_meet hstart hs

theorem pieces_intercalate_flatMap {ts : List String} (hn : ts ≠ []) :
    pieces sep ((String.singleton sep).intercalate ts) = ts.flatMap (pieces sep) := by
  induction ts with
  | nil => exact absurd rfl hn
  | cons t ts ih =>
    cases ts with
    | nil => rw [List.flatMap_cons, List.flatMap_nil, List.append_nil]; rfl
    | cons u us =>
      rw [String.intercalate_cons_cons, pieces_append_sep, ih (List.cons_ne_nil u us)]
      rfl

theorem before_eq_self {p : Char → Bool} {s : String} (h : ∀ c ∈ s.toList, p c = false) :
    before p s = s := by
  rw [before, List.takeWhile_eq_self_iff.2 fun c hc ↦ by rw [h c hc]; rfl, String.ofList_toList]

theorem before_append {p : Char → Bool} {a : String} (h : ∀ c ∈ a.toList, p c = false) (b : String) :
    before p (a ++ b) = a ++ before p b := by
  rw [before, String.toList_append, List.takeWhile_append_of_pos fun c hc ↦ by rw [h c hc]; rfl,
    String.ofList_append, String.ofList_toList, before]

theorem afterLast_append_sep (sep : Char) (a b : String) :
    afterLast sep (a ++ String.singleton sep ++ b) = afterLast sep b := by
  have hreverse : (a ++ String.singleton sep ++ b).toList.reverse =
      b.toList.reverse ++ sep :: a.toList.reverse := by
    rw [String.toList_append, String.toList_append, String.toList_singleton]
    simp
  have htake : ∀ cs ds : List Char, (cs ++ sep :: ds).takeWhile (· ≠ sep) = cs.takeWhile (· ≠ sep) := by
    intro cs ds
    induction cs with
    | nil => exact List.takeWhile_cons_of_neg (by simp)
    | cons c cs ih =>
      rw [List.cons_append, List.takeWhile_cons, List.takeWhile_cons, ih]
  rw [afterLast, afterLast, hreverse, htake]

theorem afterLast_of_not_mem {s : String} (h : sep ∉ s.toList) : afterLast sep s = s := by
  have hall : s.toList.reverse.takeWhile (· ≠ sep) = s.toList.reverse :=
    List.takeWhile_eq_self_iff.2 fun c hc ↦ decide_eq_true fun he ↦ h (he ▸ List.mem_reverse.1 hc)
  rw [afterLast, hall, List.reverse_reverse, String.ofList_toList]

theorem not_mem_afterLast (sep : Char) (s : String) : sep ∉ (afterLast sep s).toList := by
  rw [afterLast, String.toList_ofList, List.mem_reverse]
  intro hm
  simpa using List.mem_takeWhile_imp hm

section Affixes

variable {s beginning ending rest : String}

theorem dropStart?_eq_some : dropStart? beginning s = some rest ↔ s = beginning ++ rest := by
  rw [dropStart?, Option.map_eq_some_iff]
  constructor
  · rintro ⟨l, hl, rfl⟩
    rw [← String.toList_inj, String.toList_append, String.toList_ofList]
    exact (List.isPrefixOf?_eq_some_iff_append_eq.1 hl).symm
  · rintro rfl
    refine ⟨rest.toList, ?_, String.ofList_toList⟩
    rw [String.toList_append]
    exact List.isPrefixOf?_eq_some_iff_append_eq.2 rfl

theorem startsWith_iff : startsWith s beginning = true ↔ ∃ rest, s = beginning ++ rest := by
  rw [startsWith, List.isPrefixOf_iff_prefix]
  constructor
  · rintro ⟨l, hl⟩
    refine ⟨String.ofList l, ?_⟩
    rw [← String.toList_inj, String.toList_append, String.toList_ofList, hl]
  · rintro ⟨rest, rfl⟩
    rw [String.toList_append]
    exact List.prefix_append _ _

theorem startsWith_of_head? {c d : Char} {cs : List Char} (h : s.toList.head? = some d)
    (hne : c ≠ d) : startsWith s (.ofList (c :: cs)) = false := by
  rw [← Bool.not_eq_true, startsWith_iff]
  rintro ⟨rest, rfl⟩
  rw [String.toList_append, String.toList_ofList] at h
  exact hne (Option.some.inj h)

theorem dropStart?_eq_none : dropStart? beginning s = none ↔ startsWith s beginning = false := by
  rw [← Bool.not_eq_true, startsWith_iff, Option.eq_none_iff_forall_ne_some]
  simp only [ne_eq, dropStart?_eq_some, not_exists]

theorem dropEnd?_eq_some : dropEnd? ending s = some rest ↔ s = rest ++ ending := by
  rw [dropEnd?, Option.map_eq_some_iff]
  constructor
  · rintro ⟨l, hl, rfl⟩
    rw [← String.toList_inj, String.toList_append, String.toList_ofList]
    exact (List.isSuffixOf?_eq_some_iff_append_eq.1 hl).symm
  · rintro rfl
    refine ⟨rest.toList, ?_, String.ofList_toList⟩
    rw [String.toList_append]
    exact List.isSuffixOf?_eq_some_iff_append_eq.2 rfl

theorem dropStart?_append (a b : String) : dropStart? a (a ++ b) = some b :=
  dropStart?_eq_some.2 rfl

theorem dropEnd?_append (a b : String) : dropEnd? b (a ++ b) = some a :=
  dropEnd?_eq_some.2 rfl

end Affixes

theorem dropEnd?_eq_none {s ending : String} (hne : ending.toList ≠ [])
    (h : s.toList.getLast? ≠ ending.toList.getLast?) : dropEnd? ending s = none := by
  refine Option.eq_none_iff_forall_ne_some.2 fun t ht ↦ h ?_
  obtain ⟨l, hs, -⟩ := Option.map_eq_some_iff.1 ht
  rw [← List.isSuffixOf?_eq_some_iff_append_eq.1 hs, List.getLast?_append_of_ne_nil l hne]

theorem cutLast?_append {sep : Char} {a b : String} (h : sep ∉ b.toList) :
    cutLast? (· = sep) (a ++ String.singleton sep ++ b) = some (a, b) := by
  have hb : ∀ c ∈ b.toList.reverse, (!decide (c = sep)) = true := by
    intro c hc
    have hne : c ≠ sep := fun he ↦ h (he ▸ List.mem_reverse.1 hc)
    simp [hne]
  have hr : (a ++ String.singleton sep ++ b).toList.reverse =
      b.toList.reverse ++ sep :: a.toList.reverse := by
    simp
  rw [cutLast?, hr, List.dropWhile_append_of_pos hb, List.takeWhile_append_of_pos hb]
  simp

theorem cutLast?_eq_some {sep : Char} {s a b : String} : cutLast? (· = sep) s = some (a, b) ↔
    s = a ++ String.singleton sep ++ b ∧ sep ∉ b.toList := by
  refine ⟨fun h ↦ ?_, fun h ↦ ?_⟩
  · have hsplit := List.takeWhile_append_dropWhile (p := fun c ↦ !decide (c = sep))
      (l := s.toList.reverse)
    have hhead := List.head?_dropWhile_not (fun c ↦ !decide (c = sep)) s.toList.reverse
    rw [cutLast?] at h
    split at h
    · cases h
    · next d rest hd =>
      cases h
      rw [hd] at hsplit hhead
      obtain rfl : d = sep := by simpa using hhead
      have hnot : d ∉ List.takeWhile (fun c ↦ !decide (c = d)) s.toList.reverse := by
        intro hm
        have hne := List.mem_takeWhile_imp hm
        simp at hne
      generalize List.takeWhile (fun c ↦ !decide (c = d)) s.toList.reverse = after at hsplit hnot ⊢
      constructor
      · rw [← String.toList_inj, ← List.reverse_inj, ← hsplit]
        simp
      · rwa [String.toList_ofList, List.mem_reverse]
  · rw [h.1]
    exact cutLast?_append h.2

end SiteCompiler.Text
