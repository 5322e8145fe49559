import Mathlib
import SiteCompiler.Text.Utf8

namespace SiteCompiler.Text.Utf8

theorem toList_eq_data (bs : ByteArray) : bs.toList = bs.data.toList := by
  have hloop : ∀ i r, ByteArray.toList.loop bs i r = r.reverse ++ bs.data.toList.drop i := by
    intro i r
    fun_induction ByteArray.toList.loop bs i r with
    | case1 i r hi ih =>
      have hd : i < bs.data.toList.length := by simpa using hi
      rw [ih, List.drop_eq_getElem_cons hd]
      simp [ByteArray.get!, hi]
    | case2 i r hi =>
      rw [List.drop_eq_nil_of_le (by simpa using Nat.le_of_not_lt hi), List.append_nil]
  exact hloop 0 []

section Continuation

variable {value count : Nat} {low high : UInt8} {bs : List UInt8} {c : Char}

theorem continueChar_suffix : (continueChar value count low high bs).2 <:+ bs := by
  induction bs generalizing value count low high with
  | nil => cases count <;> exact List.suffix_rfl
  | cons b bs ih =>
    cases count with
    | zero => exact List.suffix_rfl
    | succ count =>
      rw [continueChar]
      split
      · exact ih.trans (List.suffix_cons b bs)
      · exact List.suffix_rfl

theorem le_of_continueChar (h : (continueChar value count low high bs).1 = some c) :
    ∃ n, value * 0x40 ^ count ≤ n ∧ c = Char.ofNat n := by
  induction bs generalizing value count low high with
  | nil =>
    cases count with
    | zero => exact ⟨value, by omega, (Option.some_inj.1 h).symm⟩
    | succ count => cases h
  | cons b bs ih =>
    cases count with
    | zero => exact ⟨value, by omega, (Option.some_inj.1 h).symm⟩
    | succ count =>
      rw [continueChar] at h
      split at h
      · obtain ⟨n, hn, hc⟩ := ih h
        refine ⟨n, Nat.le_trans ?_ hn, hc⟩
        rw [Nat.pow_succ', ← Nat.mul_assoc]
        exact Nat.mul_le_mul_right _ (Nat.le_add_right _ _)
      · cases h

theorem following_zero : ∀ n < 0x100, ∀ r ∈ following (UInt8.ofNat n), r.1 = 0 → n < 0x80 := by
  decide +kernel

/-- What a leading octet leaves open of the number, the range of the next octet settles. -/
theorem following_settles : ∀ n < 0x100, ∀ r ∈ following (UInt8.ofNat n), 0 < r.1 →
    0x80 ≤ (leadBits (UInt8.ofNat n) r.1 * 0x40 + r.2.1.toNat % 0x40) * 0x40 ^ (r.1 - 1) ∧
      0x80 ≤ r.2.1.toNat ∧ r.2.2.toNat ≤ 0xbf := by
  decide +kernel

theorem not_ascii_of_following {lead : UInt8} (hl : following lead = some (count + 1, low, high))
    (h : (continueChar (leadBits lead (count + 1)) (count + 1) low high bs).1 = some c) :
    ∃ n, 0x80 ≤ n ∧ c = Char.ofNat n := by
  obtain ⟨hn, hlow, hhigh⟩ := following_settles lead.toNat lead.toNat_lt _
    (by rw [UInt8.ofNat_toNat]; exact hl) (Nat.succ_pos count)
  rw [UInt8.ofNat_toNat] at hn
  cases bs with
  | nil => cases h
  | cons b bs =>
    rw [continueChar] at h
    split at h
    · next hb =>
      obtain ⟨n, hle, hc⟩ := le_of_continueChar h
      have hb₁ := UInt8.le_iff_toNat_le.1 hb.1
      have hb₂ := UInt8.le_iff_toNat_le.1 hb.2
      dsimp only at hn hlow hhigh
      refine ⟨n, hn.trans (Nat.le_trans (Nat.mul_le_mul_right _ ?_) hle), hc⟩
      omega
    · cases h

end Continuation

theorem getLast?_of_suffix {α : Type} {l tail : List α} (h : tail <:+ l) (ht : tail ≠ []) :
    l.getLast? = tail.getLast? := by
  obtain ⟨front, rfl⟩ := h
  rw [List.getLast?_append, Option.or_of_isSome (List.getLast?_isSome.2 ht)]

section Decoding

variable {sub : List Char} {Q : Char → Prop}

theorem decodeWith_ascii {b : UInt8} (hb : b < 0x80) (bs : List UInt8) :
    decodeWith sub (b :: bs) = Char.ofNat b.toNat :: decodeWith sub bs := by
  have hf : following b = some (0, 0x80, 0xbf) := if_pos hb
  rw [decodeWith, hf]
  cases bs <;> rfl

theorem last_append_decodeWith {read : List Char} {lead : UInt8} {rest tail : List UInt8}
    (ht : tail <:+ rest) (hread : tail = [] → ∃ c ∈ read.getLast?, Q c)
    (ih : (∃ b ∈ tail.getLast?, 0x80 ≤ b) → ∃ c ∈ (decodeWith sub tail).getLast?, Q c)
    (hb : ∃ b ∈ (lead :: rest).getLast?, 0x80 ≤ b) :
    ∃ c ∈ (read ++ decodeWith sub tail).getLast?, Q c := by
  by_cases hne : tail = []
  · rw [hne, decodeWith, List.append_nil]
    exact hread hne
  · rw [getLast?_of_suffix (ht.trans (List.suffix_cons lead rest)) hne] at hb
    obtain ⟨c, hc, hq⟩ := ih hb
    refine ⟨c, ?_, hq⟩
    rw [List.getLast?_append, hc]
    rfl

/-- Where the last octet is not that of an ASCII character, what is read ends with what is read of
such octets: a substitute or another character. -/
theorem last_decodeWith (hsub : ∃ c ∈ sub.getLast?, Q c) (hQ : ∀ n, 0x80 ≤ n → Q (Char.ofNat n))
    (bs : List UInt8) (hb : ∃ b ∈ bs.getLast?, 0x80 ≤ b) :
    ∃ c ∈ (decodeWith sub bs).getLast?, Q c := by
  fun_induction decodeWith sub bs with
  | case1 =>
    obtain ⟨b, hb, -⟩ := hb
    cases hb
  | case2 lead rest hl ih => exact last_append_decodeWith List.suffix_rfl (fun _ ↦ hsub) ih hb
  | case3 lead rest count low high hl ih =>
    refine last_append_decodeWith continueChar_suffix (fun hnil ↦ ?_) ih hb
    cases hc : (continueChar (leadBits lead count) count low high rest).1 with
    | none => exact hsub
    | some c =>
      refine ⟨c, rfl, ?_⟩
      cases count with
      | zero =>
        obtain rfl : rest = [] := hnil
        obtain ⟨b, hlast, hb⟩ := hb
        obtain rfl : lead = b := Option.some_inj.1 hlast
        have hlt := following_zero lead.toNat lead.toNat_lt _ (by rw [UInt8.ofNat_toNat]; exact hl) rfl
        exact absurd (UInt8.le_iff_toNat_le.1 hb) (Nat.not_le.2 hlt)
      | succ count =>
        obtain ⟨n, hn, rfl⟩ := not_ascii_of_following hl hc
        exact hQ n hn

end Decoding

section Reading

theorem toNat_toUInt8 {n : Nat} (h : n < 0x100) : n.toUInt8.toNat = n :=
  UInt8.toNat_ofNat_of_lt' h

theorem following_toUInt8 {n : Nat} (h : n < 0x100) : following n.toUInt8 =
    if n < 0x80 then some (0, 0x80, 0xbf)
    else if 0xc2 ≤ n ∧ n ≤ 0xdf then some (1, 0x80, 0xbf)
    else if n = 0xe0 then some (2, 0xa0, 0xbf)
    else if n = 0xed then some (2, 0x80, 0x9f)
    else if 0xe1 ≤ n ∧ n ≤ 0xef then some (2, 0x80, 0xbf)
    else if n = 0xf0 then some (3, 0x90, 0xbf)
    else if 0xf1 ≤ n ∧ n ≤ 0xf3 then some (3, 0x80, 0xbf)
    else if n = 0xf4 then some (3, 0x80, 0x8f)
    else none := by
  simp only [following, UInt8.lt_iff_toNat_lt, UInt8.le_iff_toNat_le, ← UInt8.toNat_inj, toNat_toUInt8 h]
  rfl

theorem continueChar_cons {n value count : Nat} {low high : UInt8} {rest : List UInt8}
    (hl : low.toNat ≤ n) (hh : n ≤ high.toNat) :
    continueChar value (count + 1) low high (n.toUInt8 :: rest) =
      continueChar (value * 0x40 + n % 0x40) count 0x80 0xbf rest := by
  have hn : n.toUInt8.toNat = n := toNat_toUInt8 (hh.trans_lt high.toNat_lt)
  rw [continueChar, if_pos, hn]
  exact ⟨UInt8.le_iff_toNat_le.2 (hn.symm ▸ hl), UInt8.le_iff_toNat_le.2 (hn.symm ▸ hh)⟩

theorem continueChar_tail {k value count : Nat} {rest : List UInt8} (h : k < 0x40) :
    continueChar value (count + 1) 0x80 0xbf ((0x80 + k).toUInt8 :: rest) =
      continueChar (value * 0x40 + k) count 0x80 0xbf rest := by
  have hbits : (0x80 + k) % 0x40 = k := by omega
  have hl : (0x80 : UInt8).toNat ≤ 0x80 + k := Nat.le_add_right ..
  have hh : 0x80 + k ≤ (0xbf : UInt8).toNat := by change _ ≤ 0xbf; omega
  rw [continueChar_cons hl hh, hbits]

theorem decodeWith_cons {substitute : List Char} {lead low high : UInt8} {count n : Nat}
    {rest rest' : List UInt8} (h : following lead = some (count, low, high))
    (hc : continueChar (leadBits lead count) count low high rest =
      continueChar n 0 0x80 0xbf rest') :
    decodeWith substitute (lead :: rest) = Char.ofNat n :: decodeWith substitute rest' := by
  rw [decodeWith, h]
  dsimp only
  rw [hc, continueChar]
  rfl

theorem decodeWith_two {substitute : List Char} {k l : Nat} {rest : List UInt8}
    (hk : 2 ≤ k) (hk' : k < 0x20) (hl : l < 0x40) :
    decodeWith substitute ((0xc0 + k).toUInt8 :: (0x80 + l).toUInt8 :: rest) =
      Char.ofNat (k * 0x40 + l) :: decodeWith substitute rest := by
  refine decodeWith_cons (by rw [following_toUInt8 (by omega), if_neg (by omega),
    if_pos (by omega)]) ?_
  have hbits : (0xc0 + k) % 0x20 = k := by omega
  rw [leadBits, toNat_toUInt8 (by omega), continueChar_tail hl, hbits]

theorem decodeWith_three {substitute : List Char} {k j l : Nat} {rest : List UInt8}
    (hk : k < 0x10) (hj : j < 0x40) (hl : l < 0x40) (hlow : k = 0 → 0x20 ≤ j)
    (hhigh : k = 0xd → j < 0x20) :
    decodeWith substitute ((0xe0 + k).toUInt8 :: (0x80 + j).toUInt8 :: (0x80 + l).toUInt8 :: rest) =
      Char.ofNat ((k * 0x40 + j) * 0x40 + l) :: decodeWith substitute rest := by
  have hlead : leadBits (0xe0 + k).toUInt8 2 = k := by
    rw [leadBits, toNat_toUInt8 (by omega)]
    omega
  have hbits' : (0x80 + j) % 0x40 = j := by omega
  have hnext (low high : UInt8) (hlow : low.toNat ≤ 0x80 + j) (hhigh : 0x80 + j ≤ high.toNat) :
      continueChar (leadBits (0xe0 + k).toUInt8 2) 2 low high
        ((0x80 + j).toUInt8 :: (0x80 + l).toUInt8 :: rest) =
      continueChar ((k * 0x40 + j) * 0x40 + l) 0 0x80 0xbf rest := by
    rw [hlead, continueChar_cons hlow hhigh, hbits', continueChar_tail hl]
  have hfollow := following_toUInt8 (show 0xe0 + k < 0x100 by omega)
  rw [if_neg (by omega), if_neg (by omega)] at hfollow
  by_cases h₀ : k = 0
  · rw [if_pos (by omega)] at hfollow
    have h := hlow h₀
    exact decodeWith_cons hfollow (hnext _ _ (by change 0xa0 ≤ _; omega) (by change _ ≤ 0xbf; omega))
  · rw [if_neg (by omega)] at hfollow
    by_cases h₁ : k = 0xd
    · rw [if_pos (by omega)] at hfollow
      have h := hhigh h₁
      exact decodeWith_cons hfollow (hnext _ _ (by change 0x80 ≤ _; omega) (by change _ ≤ 0x9f; omega))
    · rw [if_neg (by omega), if_pos (by omega)] at hfollow
      exact decodeWith_cons hfollow (hnext _ _ (by change 0x80 ≤ _; omega) (by change _ ≤ 0xbf; omega))

theorem decodeWith_four {substitute : List Char} {k j i l : Nat} {rest : List UInt8}
    (hk : k < 5) (hj : j < 0x40) (hi : i < 0x40) (hl : l < 0x40) (hlow : k = 0 → 0x10 ≤ j)
    (hhigh : k = 4 → j < 0x10) :
    decodeWith substitute ((0xf0 + k).toUInt8 :: (0x80 + j).toUInt8 :: (0x80 + i).toUInt8 ::
        (0x80 + l).toUInt8 :: rest) =
      Char.ofNat (((k * 0x40 + j) * 0x40 + i) * 0x40 + l) :: decodeWith substitute rest := by
  have hlead : leadBits (0xf0 + k).toUInt8 3 = k := by
    change (0xf0 + k).toUInt8.toNat % 0x08 = k
    rw [toNat_toUInt8 (by omega)]
    omega
  have hbits' : (0x80 + j) % 0x40 = j := by omega
  have hnext (low high : UInt8) (hlow : low.toNat ≤ 0x80 + j) (hhigh : 0x80 + j ≤ high.toNat) :
      continueChar (leadBits (0xf0 + k).toUInt8 3) 3 low high
        ((0x80 + j).toUInt8 :: (0x80 + i).toUInt8 :: (0x80 + l).toUInt8 :: rest) =
      continueChar (((k * 0x40 + j) * 0x40 + i) * 0x40 + l) 0 0x80 0xbf rest := by
    rw [hlead, continueChar_cons hlow hhigh, hbits', continueChar_tail hi,
      continueChar_tail hl]
  have hfollow := following_toUInt8 (show 0xf0 + k < 0x100 by omega)
  rw [if_neg (by omega), if_neg (by omega), if_neg (by omega), if_neg (by omega),
    if_neg (by omega)] at hfollow
  by_cases h₀ : k = 0
  · rw [if_pos (by omega)] at hfollow
    have h := hlow h₀
    exact decodeWith_cons hfollow (hnext _ _ (by change 0x90 ≤ _; omega) (by change _ ≤ 0xbf; omega))
  · rw [if_neg (by omega)] at hfollow
    by_cases h₁ : k = 4
    · rw [if_neg (by omega), if_pos (by omega)] at hfollow
      have h := hhigh h₁
      exact decodeWith_cons hfollow (hnext _ _ (by change 0x80 ≤ _; omega) (by change _ ≤ 0x8f; omega))
    · rw [if_pos (by omega)] at hfollow
      exact decodeWith_cons hfollow (hnext _ _ (by change 0x80 ≤ _; omega) (by change _ ≤ 0xbf; omega))

theorem decodeWith_encodeChar (substitute : List Char) (c : Char) (rest : List UInt8) :
    decodeWith substitute (encodeChar c ++ rest) = c :: decodeWith substitute rest := by
  have hvalid : c.toNat < 0xd800 ∨ 0xdfff < c.toNat ∧ c.toNat < 0x110000 := c.valid
  conv_rhs => rw [← Char.ofNat_toNat c]
  rw [encodeChar]
  generalize c.toNat = n at hvalid
  split_ifs with h₁ h₂ h₃
  · refine decodeWith_cons (by rw [following_toUInt8 (by omega), if_pos h₁]) ?_
    rw [leadBits, toNat_toUInt8 (by omega)]
    rfl
  · have hn : n / 0x40 * 0x40 + n % 0x40 = n := by omega
    exact (decodeWith_two (by omega) (by omega) (by omega)).trans (by rw [hn]; rfl)
  · have hn : (n / 0x1000 * 0x40 + n / 0x40 % 0x40) * 0x40 + n % 0x40 = n := by omega
    exact (decodeWith_three (by omega) (by omega) (by omega) (by omega) (by omega)).trans
      (by rw [hn]; rfl)
  · have hn : ((n / 0x40000 * 0x40 + n / 0x1000 % 0x40) * 0x40 + n / 0x40 % 0x40) * 0x40 +
        n % 0x40 = n := by omega
    exact (decodeWith_four (by omega) (by omega) (by omega) (by omega) (by omega) (by omega)).trans
      (by rw [hn]; rfl)

theorem decodeLossy_encode (s : String) : decodeLossy (encode s) = s.toList := by
  rw [decodeLossy, encode]
  generalize s.toList = chars
  induction chars with
  | nil => exact decodeWith.eq_1 _
  | cons c chars ih => rw [List.flatMap_cons, decodeWith_encodeChar, ih]

end Reading

theorem octet_of_several {c : Char} (hl : 1 < (String.utf8EncodeChar c).length) {b : UInt8}
    (hb : b ∈ String.utf8EncodeChar c) : 0x80 ≤ b := by
  rw [UInt8.le_iff_toNat_le]
  simp only [String.utf8EncodeChar] at hl hb
  split at hl
  · exact absurd hl (Nat.lt_irrefl 1)
  · rw [if_neg ‹_›] at hb
    split at hb
    · simp only [List.mem_cons, List.not_mem_nil, or_false] at hb
      rcases hb with rfl | rfl <;> simp <;> omega
    · split at hb
      · simp only [List.mem_cons, List.not_mem_nil, or_false] at hb
        rcases hb with rfl | rfl | rfl <;> simp <;> omega
      · simp only [List.mem_cons, List.not_mem_nil, or_false] at hb
        rcases hb with rfl | rfl | rfl | rfl <;> simp <;> omega

/-- The first octets of a text are those of some characters, unless the last of them is not that of
an ASCII character. -/
theorem take_encode (cs : List Char) (n : Nat) :
    (∃ as : List Char,
      (cs.flatMap String.utf8EncodeChar).take n = as.flatMap String.utf8EncodeChar) ∨
      ∃ b ∈ ((cs.flatMap String.utf8EncodeChar).take n).getLast?, 0x80 ≤ b := by
  induction cs generalizing n with
  | nil => exact .inl ⟨[], List.take_nil⟩
  | cons c cs ih =>
    rw [List.flatMap_cons, List.take_append]
    rcases Nat.lt_or_ge n (String.utf8EncodeChar c).length with hn | hn
    · rw [Nat.sub_eq_zero_of_le (Nat.le_of_lt hn), List.take_zero, List.append_nil]
      cases n with
      | zero => exact .inl ⟨[], rfl⟩
      | succ n =>
        have hne : (String.utf8EncodeChar c).take (n + 1) ≠ [] := by
          rw [Ne, List.take_eq_nil_iff]
          rintro (h | h)
          · omega
          · rw [h] at hn
            exact absurd hn (Nat.not_lt_zero _)
        refine .inr ⟨_, List.getLast?_eq_some_getLast hne, octet_of_several (c := c) (by omega) ?_⟩
        exact List.take_subset _ _ (List.getLast_mem hne)
    · rw [List.take_of_length_le hn]
      rcases ih (n - (String.utf8EncodeChar c).length) with ⟨as, he⟩ | ⟨b, hb, hle⟩
      · exact .inl ⟨c :: as, by rw [he, List.flatMap_cons]⟩
      · refine .inr ⟨b, ?_, hle⟩
        rw [List.getLast?_append, hb]
        rfl

theorem toUTF8_ofList (cs : List Char) :
    (String.ofList cs).toUTF8.data.toList = cs.flatMap String.utf8EncodeChar := by
  rw [String.toUTF8, String.toByteArray_ofList, List.utf8Encode, List.data_toByteArray]

theorem extract_of_size_le {bs : ByteArray} {n : Nat} (h : bs.size ≤ n) : bs.extract 0 n = bs := by
  apply ByteArray.ext
  rw [ByteArray.data_extract]
  exact Array.extract_eq_self_of_le h

theorem toList_extract (s : String) (n : Nat) :
    (s.toUTF8.extract 0 n).data.toList = (s.toList.flatMap String.utf8EncodeChar).take n := by
  have hs := toUTF8_ofList s.toList
  rw [String.ofList_toList] at hs
  rw [ByteArray.data_extract, Array.toList_extract, hs]
  simp

/-- The first octets of a text spell a beginning of it, or they spell no text and the last of them is
not that of an ASCII character. -/
theorem extract_toUTF8 (s : String) {n : Nat} (hn : n ≤ s.toUTF8.size) :
    (∃ front back, s = front ++ back ∧ s.toUTF8.extract 0 n = front.toUTF8) ∨
      decode? (s.toUTF8.extract 0 n) = none ∧
        ∃ b ∈ (s.toUTF8.extract 0 n).toList.getLast?, 0x80 ≤ b := by
  by_cases hv : (s.toUTF8.extract 0 n).IsValidUTF8
  · obtain ⟨front, back, rfl, hp⟩ := String.Pos.Raw.isValid_iff_exists_append.1
      (String.Pos.Raw.isValid_iff_isValidUTF8_extract_zero (p := ⟨n⟩).2 ⟨hn, hv⟩)
    refine .inl ⟨front, back, rfl, ?_⟩
    obtain rfl : n = front.toUTF8.size := congrArg String.Pos.Raw.byteIdx hp
    rw [String.toUTF8, String.toUTF8, String.toByteArray_append,
      ByteArray.extract_append_size_left, ByteArray.extract_zero_size]
  · refine .inr ⟨dif_neg hv, ?_⟩
    rw [toList_eq_data, toList_extract]
    rcases take_encode s.toList n with ⟨as, he⟩ | h
    · refine absurd (.intro as (ByteArray.ext ?_)) hv
      rw [← Array.toList_inj, toList_extract, he, List.utf8Encode, List.data_toByteArray]
    · exact h

end SiteCompiler.Text.Utf8
