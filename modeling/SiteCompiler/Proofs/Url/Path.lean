import SiteCompiler.Proofs.Text.Cutting
import SiteCompiler.Url.Parser

namespace SiteCompiler

namespace Text.Percent

theorem hexDigit_ne_mark : ∀ n < 16, hexDigit n ∉ ['/', '?', '#'] := by
  decide

/-- A slash, a question mark or a number sign among what is encoded was there before, and is not one of
the characters to escape. -/
theorem eq_of_mem_encodeChar {p : Char → Bool} {c d : Char} (hd : d ∈ ['/', '?', '#'])
    (h : d ∈ encodeChar p c) : c = d ∧ p d = false := by
  rw [encodeChar] at h
  split at h
  · obtain ⟨b, -, hb⟩ := List.mem_flatMap.1 h
    have hlt := b.toNat_lt
    simp only [encodeOctet, List.mem_cons, List.not_mem_nil, or_false] at hb
    rcases hb with rfl | rfl | rfl
    · exact absurd hd (by decide)
    · exact absurd hd (hexDigit_ne_mark _ (by omega))
    · exact absurd hd (hexDigit_ne_mark _ (by omega))
  · next hp =>
    obtain rfl := List.mem_singleton.1 h
    rw [Bool.or_eq_true, not_or] at hp
    exact ⟨rfl, Bool.eq_false_iff.2 hp.1⟩

theorem mem_of_mem_encode {p : Char → Bool} {s : List Char} {d : Char} (hd : d ∈ ['/', '?', '#'])
    (h : d ∈ (encode p (.ofList s)).toList) : d ∈ s ∧ p d = false := by
  rw [encode, String.toList_ofList, String.toList_ofList] at h
  obtain ⟨c, hc, hm⟩ := List.mem_flatMap.1 h
  obtain ⟨rfl, hp⟩ := eq_of_mem_encodeChar hd hm
  exact ⟨hc, hp⟩

theorem slash_not_mem_encode {p : Char → Bool} {s : List Char} (h : '/' ∉ s) :
    '/' ∉ (encode p (.ofList s)).toList :=
  fun hm ↦ h (mem_of_mem_encode (by decide) hm).1

end Text.Percent

namespace Url.Path

/-- No segment leads to the directory itself or to the one above. -/
def Tidy (path : List Char) : Prop :=
  ∀ s ∈ path.splitOn '/', s ≠ ['.'] ∧ s ≠ ['.', '.']

def Unmarked (path : List Char) : Prop :=
  '?' ∉ path ∧ '#' ∉ path

theorem tidy_nil : Tidy [] := by
  simp [Tidy]

theorem tidy_append_slash {front rest : List Char} :
    Tidy (front ++ '/' :: rest) ↔ Tidy front ∧ Tidy rest := by
  rw [Tidy, List.splitOn_append_cons_self, List.forall_mem_append]
  rfl

theorem unmarked_append {a b : List Char} : Unmarked (a ++ b) ↔ Unmarked a ∧ Unmarked b := by
  simp only [Unmarked, List.mem_append, not_or]
  exact and_and_and_comm

theorem unmarked_slash : Unmarked ['/'] :=
  ⟨by decide, by decide⟩

structure IsRooted (path : List Char) : Prop where
  tidy : Tidy path
  top : ∃ rest, path = '/' :: rest
  unmarked : Unmarked path

structure IsDirectory (path : List Char) : Prop extends IsRooted path where
  closed : ∃ front, path = front ++ ['/']

theorem isDirectory_slash : IsDirectory ['/'] where
  tidy := (@tidy_append_slash [] []).2 ⟨tidy_nil, tidy_nil⟩
  top := ⟨[], rfl⟩
  unmarked := unmarked_slash
  closed := ⟨[], rfl⟩

theorem IsRooted.isDirectory_cut {front rest : List Char} (h : IsRooted (front ++ '/' :: rest)) :
    IsDirectory (front ++ ['/']) where
  tidy := tidy_append_slash.2 ⟨(tidy_append_slash.1 h.tidy).1, tidy_nil⟩
  top := by
    obtain ⟨tail, ht⟩ := h.top
    cases front with
    | nil => exact ⟨[], rfl⟩
    | cons c front => exact ⟨front ++ ['/'], by rw [(List.cons.inj ht).1]; rfl⟩
  unmarked := unmarked_append.2 ⟨(unmarked_append.1 h.unmarked).1, unmarked_slash⟩
  closed := ⟨front, rfl⟩

theorem IsRooted.isDirectory_parent {path : List Char} (h : IsRooted path) :
    IsDirectory (parent .web path) := by
  have hp : parent .web path = (path.reverse.dropWhile (· ≠ '/')).reverse := rfl
  rw [hp]
  have hsplit := List.takeWhile_append_dropWhile (p := (· ≠ '/')) (l := path.reverse)
  have hhead := List.head?_dropWhile_not (· ≠ '/') path.reverse
  cases hd : path.reverse.dropWhile (· ≠ '/') with
  | nil =>
    obtain ⟨rest, rfl⟩ := h.top
    have hslash := List.dropWhile_eq_nil_iff.1 hd '/' (List.mem_reverse.2 List.mem_cons_self)
    exact absurd hslash (by decide)
  | cons c cs =>
    rw [hd] at hsplit hhead
    obtain rfl : c = '/' := by simpa using hhead
    have hpath := congrArg List.reverse hsplit
    rw [List.reverse_reverse, List.reverse_append, List.reverse_cons, List.append_assoc] at hpath
    rw [← hpath] at h
    rw [List.reverse_cons]
    exact h.isDirectory_cut

theorem IsDirectory.endsWithSlash {path : List Char} (h : IsDirectory path) :
    Path.endsWithSlash path = true := by
  obtain ⟨front, rfl⟩ := h.closed
  simp [Path.endsWithSlash]

/-- What is left of a directory without its slash is a path from the top if there is a segment. -/
theorem IsDirectory.isRooted_dropLast {path : List Char} (h : IsDirectory path)
    (hc : closesSegment path = true) : IsRooted path.dropLast := by
  obtain ⟨front, rfl⟩ := h.closed
  rw [List.dropLast_concat]
  refine ⟨(tidy_append_slash.1 h.tidy).1, ?_, (unmarked_append.1 h.unmarked).1⟩
  obtain ⟨tail, ht⟩ := h.top
  cases front with
  | nil => exact absurd hc (by decide)
  | cons c front => exact ⟨front, by rw [(List.cons.inj ht).1]⟩

theorem IsDirectory.above {path : List Char} (h : IsDirectory path) (hasSlash : Bool) :
    IsDirectory (above .web hasSlash path) := by
  have hp : ∀ p : List Char, IsDirectory (parent .web p) → IsDirectory
      (if (hasSlash && !Path.endsWithSlash (parent .web p)) = true then parent .web p ++ ['/']
        else parent .web p) := by
    intro p hp
    rw [hp.endsWithSlash, Bool.not_true, Bool.and_false, if_neg Bool.false_ne_true]
    exact hp
  rw [Path.above]
  refine hp _ (IsRooted.isDirectory_parent ?_)
  split
  · next hc => exact h.isRooted_dropLast (Bool.and_eq_true _ _ ▸ hc).2
  · exact h.toIsRooted

structure IsWritten (segment : List Char) : Prop where
  slash : '/' ∉ segment
  unmarked : Unmarked segment

structure IsName (segment : List Char) : Prop extends IsWritten segment where
  dot : segment ≠ ['.']
  dots : segment ≠ ['.', '.']

theorem IsWritten.isName {segment : List Char} (h : IsWritten segment)
    (hu : ¬isDotDot segment = true) (hd : ¬isDot segment = true) : IsName segment := by
  refine ⟨h, ?_, ?_⟩
  · rintro rfl
    exact hd (by decide)
  · rintro rfl
    exact hu (by decide)

theorem IsDirectory.append_name {path segment : List Char} (h : IsDirectory path)
    (hs : IsName segment) : IsRooted (path ++ segment) := by
  obtain ⟨rest, hrest⟩ := h.top
  refine ⟨?_, ⟨rest ++ segment, by rw [hrest]; rfl⟩,
    unmarked_append.2 ⟨h.unmarked, hs.unmarked⟩⟩
  obtain ⟨front, rfl⟩ := h.closed
  rw [List.append_assoc]
  refine tidy_append_slash.2 ⟨(tidy_append_slash.1 h.tidy).1, ?_⟩
  change Tidy segment
  rw [Tidy, List.splitOn_eq_singleton hs.slash, List.forall_mem_singleton]
  exact ⟨hs.dot, hs.dots⟩

theorem IsRooted.append_slash {path : List Char} (h : IsRooted path) : IsDirectory (path ++ ['/']) := by
  obtain ⟨rest, hrest⟩ := h.top
  exact ⟨⟨tidy_append_slash.2 ⟨h.tidy, tidy_nil⟩, ⟨rest ++ ['/'], by rw [hrest]; rfl⟩,
    unmarked_append.2 ⟨h.unmarked, unmarked_slash⟩⟩, ⟨path, rfl⟩⟩

theorem isDirectory_withSegment {path segment : List Char} (h : IsDirectory path)
    (hs : IsWritten segment) : IsDirectory (withSegment .web path segment true).1 := by
  rw [withSegment]
  split
  · exact h.above true
  · next hu =>
    split
    · change IsDirectory (if endsWithSlash path = true then path else path ++ ['/'])
      rwa [if_pos h.endsWithSlash]
    · next hd => exact (h.append_name (hs.isName hu hd)).append_slash

theorem isRooted_withSegment {path segment : List Char} (h : IsDirectory path)
    (hs : IsWritten segment) : IsRooted (withSegment .web path segment false).1 := by
  rw [withSegment]
  split
  · exact (h.above false).toIsRooted
  · next hu =>
    split
    · change IsRooted (if endsWithSlash path = true then path else path ++ ['/'])
      rw [if_pos h.endsWithSlash]
      exact h.toIsRooted
    · next hd =>
      change IsRooted (path ++ segment ++ [])
      rw [List.append_nil]
      exact h.append_name (hs.isName hu hd)

theorem isRooted_withSegments {path : List Char} {segments : List (List Char)}
    (h : IsDirectory path) (hs : ∀ s ∈ segments, IsWritten s) :
    IsRooted (withSegments .web path segments).1 := by
  induction segments generalizing path with
  | nil => exact h.toIsRooted
  | cons segment rest ih =>
    cases rest with
    | nil => exact isRooted_withSegment h (hs segment List.mem_cons_self)
    | cons next rest =>
      have hnext := ih (isDirectory_withSegment h (hs segment List.mem_cons_self))
        fun s hm ↦ hs s (List.mem_cons_of_mem segment hm)
      rw [withSegments]
      · exact hnext
      · exact fun he ↦ List.cons_ne_nil next rest he

theorem slash_not_mem_splitOnP {cs : List Char} : ∀ s ∈ cs.splitOnP (isSlash true), '/' ∉ s := by
  induction cs with
  | nil =>
    intro s hs
    rw [List.splitOnP_nil, List.mem_singleton] at hs
    simp [hs]
  | cons c cs ih =>
    intro s hs
    rw [List.splitOnP_cons_eq_if_modifyHead] at hs
    split at hs
    · rcases List.mem_cons.1 hs with rfl | hs
      · exact List.not_mem_nil
      · exact ih s hs
    · next hc =>
      obtain ⟨p, ps, hp⟩ := List.exists_cons_of_ne_nil (List.splitOnP_ne_nil (isSlash true) cs)
      rw [hp, List.modifyHead_cons] at hs
      rw [hp] at ih
      rcases List.mem_cons.1 hs with rfl | hs
      · intro hm
        rcases List.mem_cons.1 hm with rfl | hm
        · exact hc (by decide)
        · exact ih p List.mem_cons_self hm
      · exact ih s (List.mem_cons_of_mem p hs)

theorem isWritten_encode {s : List Char} (h : '/' ∉ s) :
    IsWritten (Text.Percent.encode isPathEscape (.ofList s)).toList where
  slash := Text.Percent.slash_not_mem_encode h
  unmarked := by
    constructor
    · exact fun hm ↦ absurd (Text.Percent.mem_of_mem_encode (by decide) hm).2 (by decide)
    · exact fun hm ↦ absurd (Text.Percent.mem_of_mem_encode (by decide) hm).2 (by decide)

theorem isRooted_read {path : List Char} (h : IsDirectory path) (cs : List Char) :
    IsRooted (read .web path cs).path.toList := by
  change IsRooted (String.ofList (withSegments .web path _).1).toList
  rw [String.toList_ofList]
  refine isRooted_withSegments h ?_
  intro s hs
  obtain ⟨t, ht, rfl⟩ := List.mem_map.1 hs
  exact isWritten_encode (slash_not_mem_splitOnP t ht)

theorem isRooted_readStart (cs : List Char) : IsRooted (readStart .web cs).path.toList := by
  cases cs with
  | nil => exact isDirectory_slash.toIsRooted
  | cons c cs =>
    simp only [readStart]
    split
    · exact isRooted_read isDirectory_slash cs
    · split
      · next hc => simp at hc
      · exact isRooted_read isDirectory_slash (c :: cs)

end Url.Path
end SiteCompiler
