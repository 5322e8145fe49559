import Mathlib
import SiteCompiler.Digest

namespace SiteCompiler.Digest

def octets (cs : List Char) : Nat :=
  (cs.map Char.utf8Size).sum

@[simp] theorem octets_nil : octets [] = 0 := rfl

@[simp] theorem octets_cons (c : Char) (cs : List Char) :
    octets (c :: cs) = c.utf8Size + octets cs := rfl

@[simp] theorem octets_append (cs ds : List Char) : octets (cs ++ ds) = octets cs + octets ds := by
  simp [octets]

theorem octets_eq_zero {cs : List Char} (h : octets cs = 0) : cs = [] := by
  cases cs with
  | nil => rfl
  | cons c cs =>
    have hc := c.utf8Size_pos
    rw [octets_cons] at h
    omega

theorem octets_of_ascii {cs : List Char} (h : ∀ c ∈ cs, c.utf8Size = 1) :
    octets cs = cs.length := by
  induction cs with
  | nil => rfl
  | cons c cs ih =>
    rw [octets_cons, h c List.mem_cons_self, ih fun d hd ↦ h d (List.mem_cons_of_mem c hd),
      List.length_cons, Nat.add_comm]

theorem utf8ByteSize_eq_octets (s : String) : s.utf8ByteSize = octets s.toList := by
  have h : ∀ cs : List Char, (String.ofList cs).utf8ByteSize = octets cs := by
    intro cs
    induction cs with
    | nil => rfl
    | cons c cs ih =>
      rw [String.ofList_cons, String.utf8ByteSize_append, ih, String.utf8ByteSize_singleton,
        octets_cons]
  rw [← h, String.ofList_toList]

theorem eq_of_octets {a b c d : List Char} (h : a ++ b = c ++ d) (ho : octets a = octets c) :
    a = c ∧ b = d := by
  induction a generalizing c with
  | nil =>
    obtain rfl := octets_eq_zero ho.symm
    exact ⟨rfl, h⟩
  | cons x a ih =>
    cases c with
    | nil => exact absurd (octets_eq_zero ho) (by simp)
    | cons y c =>
      rw [List.cons_append, List.cons_append, List.cons.injEq] at h
      obtain ⟨rfl, h⟩ := h
      rw [octets_cons, octets_cons] at ho
      obtain ⟨rfl, rfl⟩ := ih h (by omega)
      exact ⟨rfl, rfl⟩

/-- Of two divisions of one text the first part with fewer octets starts the other one. -/
theorem exists_of_octets_le {a b c d : List Char} (h : a ++ b = c ++ d)
    (ho : octets a ≤ octets c) : ∃ e, c = a ++ e ∧ b = e ++ d := by
  rcases List.append_eq_append_iff.1 h with ⟨e, rfl, rfl⟩ | ⟨e, rfl, rfl⟩
  · exact ⟨e, rfl, rfl⟩
  · rw [octets_append] at ho
    obtain rfl := octets_eq_zero (show octets e = 0 by omega)
    exact ⟨[], by simp, rfl⟩

theorem splitAtOctet_append (a b : List Char) : splitAtOctet (octets a) (a ++ b) = some (a, b) := by
  induction a with
  | nil => rw [octets_nil, splitAtOctet, List.nil_append]
  | cons c a ih =>
    have hc := c.utf8Size_pos
    obtain ⟨n, hn⟩ : ∃ n, octets (c :: a) = n + 1 := ⟨octets (c :: a) - 1, by
      rw [octets_cons]; omega⟩
    have hd : n + 1 - c.utf8Size = octets a := by rw [← hn, octets_cons]; omega
    rw [hn, List.cons_append, splitAtOctet, if_pos (by rw [← hn, octets_cons]; omega), hd, ih]
    rfl

theorem eq_append_of_splitAtOctet {n : Nat} {cs a b : List Char}
    (h : splitAtOctet n cs = some (a, b)) : cs = a ++ b ∧ octets a = n := by
  fun_induction splitAtOctet n cs generalizing a with
  | case1 cs =>
    obtain ⟨rfl, rfl⟩ := Prod.mk.inj (Option.some_inj.1 h)
    exact ⟨rfl, rfl⟩
  | case2 => cases h
  | case3 n c cs hc ih =>
    obtain ⟨⟨l, r⟩, hl, he⟩ := Option.map_eq_some_iff.1 h
    obtain ⟨rfl, rfl⟩ := Prod.mk.inj he
    obtain ⟨rfl, ho⟩ := ih hl
    exact ⟨rfl, by rw [octets_cons]; omega⟩
  | case4 => cases h

theorem splitAtOctet_eq_some {n : Nat} {cs a b : List Char} :
    splitAtOctet n cs = some (a, b) ↔ cs = a ++ b ∧ octets a = n := by
  refine ⟨eq_append_of_splitAtOctet, ?_⟩
  rintro ⟨rfl, rfl⟩
  exact splitAtOctet_append a b

theorem hexDigit_ascii : ∀ n < 16, (hexDigit n).utf8Size = 1 ∧ (hexDigit n).isAlphanum := by
  decide

theorem exists_hexDigit_of_mem_hexWord {w : UInt32} {c : Char} (hc : c ∈ hexWord w) :
    ∃ n < 16, c = hexDigit n := by
  obtain ⟨i, -, rfl⟩ := List.mem_map.1 hc
  exact ⟨_, Nat.mod_lt _ (by omega), rfl⟩

theorem contentHash_toList (text : String) : ∃ words : List UInt32, words.length = 5 ∧
    (contentHash text).toList = words.flatMap hexWord := by
  exact ⟨_, rfl, String.toList_ofList⟩

theorem exists_hexDigit_of_mem_contentHash {text : String} {c : Char}
    (hc : c ∈ (contentHash text).toList) : ∃ n < 16, c = hexDigit n := by
  obtain ⟨words, -, hw⟩ := contentHash_toList text
  rw [hw, List.mem_flatMap] at hc
  obtain ⟨w, -, hc⟩ := hc
  exact exists_hexDigit_of_mem_hexWord hc

theorem ascii_contentHash {text : String} {c : Char} (hc : c ∈ (contentHash text).toList) :
    c.utf8Size = 1 ∧ c.isAlphanum := by
  obtain ⟨n, hn, rfl⟩ := exists_hexDigit_of_mem_contentHash hc
  exact hexDigit_ascii n hn

theorem length_contentHash (text : String) : (contentHash text).toList.length = 40 := by
  obtain ⟨words, hl, hw⟩ := contentHash_toList text
  have h : ∀ w ∈ words, (hexWord w).length = 8 := fun w _ ↦ by simp [hexWord]
  rw [hw, List.length_flatMap, List.map_congr_left h, List.map_const', hl]
  rfl

theorem contentHash_ne_empty (text : String) : contentHash text ≠ "" := by
  intro h
  have hl := length_contentHash text
  rw [h] at hl
  cases hl

def IsHash (hash : String) : Prop :=
  hash = "" ∨ ∃ text, hash = contentHash text

theorem splitAtOctet_contentHash (text : String) :
    splitAtOctet prefixLength (contentHash text).toList =
      some ((contentHash text).toList.take 9, (contentHash text).toList.drop 9) := by
  rw [splitAtOctet_eq_some, List.take_append_drop]
  refine ⟨rfl, ?_⟩
  rw [octets_of_ascii fun c hc ↦ (ascii_contentHash (List.mem_of_mem_take hc)).1, List.length_take,
    length_contentHash]
  rfl

/-- A hash that is too short for a slot, or that has no character across the end of one. -/
def Cuttable (hash : String) : Prop :=
  prefixLength ≤ hash.utf8ByteSize → (splitAtOctet prefixLength hash.toList).isSome

theorem cuttable_contentHash (text : String) : Cuttable (contentHash text) := fun _ ↦ by
  rw [splitAtOctet_contentHash]
  rfl

theorem IsHash.cuttable {hash : String} (h : IsHash hash) : Cuttable hash := by
  rcases h with rfl | ⟨text, rfl⟩
  · exact fun h ↦ absurd h (by decide)
  · exact cuttable_contentHash text

theorem mem_of_mem_hashPrefix {hash : String} {c : Char} (h : c ∈ (hashPrefix hash).toList) :
    c ∈ hash.toList := by
  rw [hashPrefix] at h
  split at h
  · next hsplit =>
    rw [String.toList_ofList] at h
    rw [(splitAtOctet_eq_some.1 hsplit).1]
    exact List.mem_append_left _ h
  · exact h

theorem hashPrefix_contentHash (text : String) :
    (hashPrefix (contentHash text)).toList = (contentHash text).toList.take 9 := by
  rw [hashPrefix, splitAtOctet_contentHash]
  exact String.toList_ofList

theorem octets_hashPrefix_contentHash (text : String) :
    octets (hashPrefix (contentHash text)).toList = prefixLength := by
  rw [hashPrefix_contentHash]
  exact (splitAtOctet_eq_some.1 (splitAtOctet_contentHash text)).2

theorem hashPrefix_hashPrefix_contentHash (text : String) :
    hashPrefix (hashPrefix (contentHash text)) = hashPrefix (contentHash text) := by
  have hsplit := splitAtOctet_append (hashPrefix (contentHash text)).toList []
  rw [List.append_nil, octets_hashPrefix_contentHash] at hsplit
  rw [hashPrefix, hsplit]
  exact String.ofList_toList

theorem not_mem_hashPrefix {text : String} {c : Char} (hc : c.isAlphanum = false) :
    c ∉ (hashPrefix (contentHash text)).toList := by
  intro hm
  rw [hashPrefix_contentHash] at hm
  rw [(ascii_contentHash (List.mem_of_mem_take hm)).2] at hc
  cases hc

end SiteCompiler.Digest
