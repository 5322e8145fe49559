import SiteCompiler.BaseUrl
import SiteCompiler.Proofs.LocalPath
import SiteCompiler.Proofs.Url.Path

namespace SiteCompiler

namespace Text.Percent

variable {p : Char → Bool} {s t : String}

def IsKept (p : Char → Bool) (c : Char) : Prop :=
  (p c || isControlOrWide c) = false

instance : DecidablePred (IsKept p) :=
  fun c ↦ inferInstanceAs (Decidable ((p c || isControlOrWide c) = false))

theorem encodeChar_of_isKept {c : Char} (h : IsKept p c) : encodeChar p c = [c] := by
  rw [encodeChar, h, if_neg Bool.false_ne_true]

theorem exists_encodeChar (p : Char → Bool) (c : Char) :
    encodeChar p c = [c] ∧ IsKept p c ∨ ∃ rest, encodeChar p c = '%' :: rest := by
  rw [encodeChar]
  split
  · refine .inr ?_
    obtain ⟨b, bs, hb⟩ : ∃ b bs, Utf8.encodeChar c = b :: bs := by
      simp only [Utf8.encodeChar]
      split_ifs <;> exact ⟨_, _, rfl⟩
    rw [hb, List.flatMap_cons]
    exact ⟨_, rfl⟩
  · next h => exact .inl ⟨rfl, Bool.eq_false_iff.2 h⟩

theorem encode_of_isKept (h : ∀ c ∈ s.toList, IsKept p c) : encode p s = s := by
  have hall : ∀ cs : List Char, (∀ c ∈ cs, IsKept p c) → cs.flatMap (encodeChar p) = cs := by
    intro cs hcs
    induction cs with
    | nil => rfl
    | cons c cs ih =>
      rw [List.flatMap_cons, encodeChar_of_isKept (hcs c List.mem_cons_self),
        ih fun d hd ↦ hcs d (List.mem_cons_of_mem c hd)]
      rfl
  rw [encode, hall s.toList h, String.ofList_toList]

theorem eq_of_encode_eq (h : encode p s = t) (ht : '%' ∉ t.toList) : s = t := by
  refine (encode_of_isKept fun c hc ↦ ?_).symm.trans h
  rcases exists_encodeChar p c with ⟨-, hkept⟩ | ⟨rest, hrest⟩
  · exact hkept
  · have hmem : '%' ∈ t.toList := by
      rw [← h, encode, String.toList_ofList]
      exact List.mem_flatMap.2 ⟨c, hc, hrest ▸ List.mem_cons_self⟩
    exact absurd hmem ht

section Kept

variable (hpercent : IsKept p '%') (hdigit : ∀ n < 16, IsKept p (hexDigit n))

include hpercent hdigit

theorem isKept_of_mem_encode {c : Char} (h : c ∈ (encode p s).toList) : IsKept p c := by
  rw [encode, String.toList_ofList] at h
  obtain ⟨d, -, hd⟩ := List.mem_flatMap.1 h
  rw [encodeChar] at hd
  split at hd
  · obtain ⟨b, -, hb⟩ := List.mem_flatMap.1 hd
    have hlt := b.toNat_lt
    simp only [encodeOctet, List.mem_cons, List.not_mem_nil, or_false] at hb
    rcases hb with rfl | rfl | rfl
    · exact hpercent
    · exact hdigit _ (by omega)
    · exact hdigit _ (by omega)
  · next hkept =>
    rw [List.mem_singleton.1 hd]
    exact Bool.eq_false_iff.2 hkept

theorem encode_encode : encode p (encode p s) = encode p s :=
  encode_of_isKept fun _ ↦ isKept_of_mem_encode hpercent hdigit

end Kept

theorem encode_append (p : Char → Bool) (s t : String) :
    encode p (s ++ t) = encode p s ++ encode p t := by
  rw [encode, String.toList_append, List.flatMap_append, String.ofList_append]
  rfl

theorem encode_intercalate {sep : String} (h : encode p sep = sep) (ss : List String) :
    encode p (sep.intercalate ss) = sep.intercalate (ss.map (encode p)) := by
  induction ss with
  | nil => rfl
  | cons s ss ih =>
    cases ss with
    | nil => rw [List.map_singleton, String.intercalate_singleton, String.intercalate_singleton]
    | cons t ts =>
      rw [String.intercalate_cons_cons, encode_append, encode_append, h, ih]
      simp only [List.map_cons, String.intercalate_cons_cons]

theorem pieces_encode (h : encode p (String.singleton '/') = String.singleton '/') (s : String) :
    pieces '/' (encode p s) = (pieces '/' s).map (encode p) := by
  have hslash : ∀ piece ∈ (pieces '/' s).map (encode p), '/' ∉ piece.toList := by
    intro piece hp
    obtain ⟨t, ht, rfl⟩ := List.mem_map.1 hp
    have hencoded := slash_not_mem_encode (p := p) (not_mem_of_mem_pieces ht)
    rwa [String.ofList_toList] at hencoded
  have hne : (pieces '/' s).map (encode p) ≠ [] :=
    fun hnil ↦ pieces_ne_nil '/' s (List.map_eq_nil_iff.1 hnil)
  conv_lhs => rw [← intercalate_pieces '/' s]
  rw [encode_intercalate h]
  exact pieces_intercalate hne hslash

end Text.Percent

namespace ModuleId

/-- Names can be changed before or after they are followed, as long as those that steer the way are
kept and no others come up. -/
theorem climb_map {f : String → String} (hempty : ∀ s, f s = "" ↔ s = "") (hdot : ∀ s, f s = "." ↔ s = ".")
    (hup : ∀ s, f s = ".." ↔ s = "..") (directory names : List String) :
    climb (directory.map f) (names.map f) = (climb directory names).map f := by
  induction names generalizing directory with
  | nil => rfl
  | cons name names ih =>
    rw [List.map_cons, climb, climb]
    simp only [hempty, hdot, hup]
    split
    · exact ih directory
    · split
      · rw [← List.map_tail]
        exact ih directory.tail
      · exact ih (name :: directory)

theorem mem_rooted {names : List String} {c : Char} (h : c ∈ (rooted names).toList) :
    c = '/' ∨ ∃ s ∈ names, c ∈ s.toList := by
  have hspelled : ∀ names : List String, c ∈ (spelled names).toList →
      c = '/' ∨ ∃ s ∈ names, c ∈ s.toList := by
    intro names
    induction names with
    | nil => exact fun hc ↦ (List.not_mem_nil hc).elim
    | cons name names ih =>
      intro hc
      rw [spelled, String.toList_append, String.toList_append, List.append_assoc] at hc
      rcases List.mem_append.1 hc with hc | hc
      · exact .inl (List.mem_singleton.1 hc)
      · rcases List.mem_append.1 hc with hc | hc
        · exact .inr ⟨name, List.mem_cons_self, hc⟩
        · refine (ih hc).imp_right ?_
          rintro ⟨s, hs, hcs⟩
          exact ⟨s, List.mem_cons_of_mem name hs, hcs⟩
  by_cases hne : names = []
  · subst hne
    exact .inl (List.mem_singleton.1 h)
  · rw [rooted_eq_spelled hne] at h
    exact hspelled names h

end ModuleId

namespace BaseUrl

open ModuleId Text

theorem isKept_percent : Percent.IsKept isEscaped '%' := by
  decide

theorem isKept_hexDigit : ∀ n < 16, Percent.IsKept isEscaped (Percent.hexDigit n) := by
  decide

theorem encode_eq_iff {s t : String} (h : Percent.encode isEscaped t = t) (ht : '%' ∉ t.toList) :
    Percent.encode isEscaped s = t ↔ s = t := by
  refine ⟨fun he ↦ Percent.eq_of_encode_eq he ht, ?_⟩
  rintro rfl
  exact h

/-- Escaping the path and then cleaning it is cleaning it and then escaping each segment. -/
theorem cleanSegments_encode (url : String) :
    cleanSegments (Percent.encode isEscaped url) =
      (cleanSegments url).map (Percent.encode isEscaped) := by
  have hmap := climb_map (f := Percent.encode isEscaped)
    (fun _ ↦ encode_eq_iff (by decide) (by decide)) (fun _ ↦ encode_eq_iff (by decide) (by decide))
    (fun _ ↦ encode_eq_iff (by decide) (by decide)) [] (pieces '/' url)
  rw [cleanSegments, Percent.pieces_encode (by decide), ← List.map_nil, hmap, ← List.map_reverse,
    cleanSegments]

theorem clean_eq (url : String) :
    clean url = rooted ((cleanSegments url).map (Percent.encode isEscaped)) := by
  rw [clean, normalizeLocal, cleanSegments_encode]

theorem isSegment_encode {s : String} (h : IsSegment s) : IsSegment (Percent.encode isEscaped s) := by
  obtain ⟨hempty, hdot, hup, hslash⟩ := h
  refine ⟨?_, ?_, ?_, ?_⟩
  · rwa [ne_eq, encode_eq_iff (by decide) (by decide)]
  · rwa [ne_eq, encode_eq_iff (by decide) (by decide)]
  · rwa [ne_eq, encode_eq_iff (by decide) (by decide)]
  · have hencoded := Percent.slash_not_mem_encode (p := isEscaped) hslash
    rwa [String.ofList_toList] at hencoded

theorem isSegment_of_mem_encoded {url s : String}
    (h : s ∈ (cleanSegments url).map (Percent.encode isEscaped)) : IsSegment s := by
  obtain ⟨t, ht, rfl⟩ := List.mem_map.1 h
  exact isSegment_encode (isSegment_of_mem_cleanSegments ht)

theorem cleanSegments_clean (url : String) :
    cleanSegments (clean url) = (cleanSegments url).map (Percent.encode isEscaped) := by
  rw [clean_eq, cleanSegments_rooted fun s ↦ isSegment_of_mem_encoded]

theorem clean_clean (url : String) : clean (clean url) = clean url := by
  have htwice : Percent.encode isEscaped ∘ Percent.encode isEscaped = Percent.encode isEscaped :=
    funext fun _ ↦ Percent.encode_encode isKept_percent isKept_hexDigit
  rw [clean_eq (clean url), cleanSegments_clean, List.map_map, htwice, ← clean_eq]

theorem clean_congr {url url' : String} (h : normalizeLocal url = normalizeLocal url') :
    clean url = clean url' := by
  have hsegments := congrArg cleanSegments h
  rw [cleanSegments_normalizeLocal, cleanSegments_normalizeLocal] at hsegments
  rw [clean_eq, clean_eq, hsegments]

theorem isKept_of_mem_clean {url : String} {c : Char} (h : c ∈ (clean url).toList) :
    Percent.IsKept isEscaped c := by
  rw [clean_eq] at h
  rcases mem_rooted h with rfl | ⟨s, hs, hc⟩
  · decide
  · obtain ⟨t, -, rfl⟩ := List.mem_map.1 hs
    exact Percent.isKept_of_mem_encode isKept_percent isKept_hexDigit hc

/-- The prefix is the normal form of the path with its segments escaped, of ASCII characters that need no
escape. It is its own normal form, and that of every path that comes down to the same segments. -/
theorem clean_normal (url : String) :
    (∃ names, clean url = rooted names ∧ names = (cleanSegments url).map (Percent.encode isEscaped) ∧
        ∀ s ∈ names, IsSegment s) ∧
      (∀ c ∈ (clean url).toList, c.toNat < 0x80 ∧ Percent.isControlOrWide c = false ∧
        isEscaped c = false) ∧
      clean (clean url) = clean url ∧ clean (normalizeLocal url) = clean url ∧
      ∀ url', normalizeLocal url' = normalizeLocal url → clean url' = clean url := by
  refine ⟨⟨_, clean_eq url, rfl, fun _ ↦ isSegment_of_mem_encoded⟩, fun c hc ↦ ?_, clean_clean url,
    clean_congr (normalizeLocal_normalizeLocal url), fun _ ↦ clean_congr⟩
  obtain ⟨hescaped, hplain⟩ := Bool.or_eq_false_iff.1 (isKept_of_mem_clean hc)
  refine ⟨?_, hplain, hescaped⟩
  have hwide := (Bool.or_eq_false_iff.1 hplain).2
  have hlt : c.toNat < 0x7f := by simpa using hwide
  omega

end BaseUrl

end SiteCompiler
