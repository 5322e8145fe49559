import Mathlib
import SiteCompiler.Json.Printer
import SiteCompiler.Json.Reader

namespace SiteCompiler.Json

def Piece.ofChar (c : Char) : Piece :=
  if c.toNat < 0x20 ∧ c ∉ ['\n', '\r', '\t', '\x08', '\x0c'] then .unit c.toNat else .char c

def Piece.ofString (s : String) : List Piece :=
  s.toList.map Piece.ofChar

def digitValues (n : Nat) : List Nat :=
  (natDigits n).filterMap Document.digit?

def NumberToken.ofInt : Int → NumberToken
  | .ofNat n => ⟨false, digitValues n, none, none⟩
  | .negSucc n => ⟨true, digitValues (n + 1), none, none⟩

def EndsNumber (rest : List Char) : Prop :=
  ∀ c ∈ rest.head?, c.isDigit = false ∧ c ≠ '.' ∧ c ≠ 'e' ∧ c ≠ 'E'

theorem endsNumber_cons {c : Char} {rest : List Char}
    (h : c.isDigit = false ∧ c ≠ '.' ∧ c ≠ 'e' ∧ c ≠ 'E') : EndsNumber (c :: rest) := by
  intro b hb
  rw [List.head?_cons, Option.mem_def, Option.some_inj] at hb
  exact hb ▸ h

section Strings

open Document

theorem hexUnit?_control : ∀ n < 0x20, hexUnit? '0' '0' (hexDigit (n / 16)) (hexDigit (n % 16)) = some n := by
  decide

theorem readString_short {e c : Char} (he : escape? e = some c) (hu : e ≠ 'u') (rest : List Char) :
    readString ('\\' :: e :: rest) = (readString rest).map fun p ↦ (.char c :: p.1, p.2) := by
  rw [readString]
  · rw [he]
    cases readString rest <;> rfl
  · exact fun _ _ _ _ _ h _ ↦ hu h

theorem readString_plain {c : Char} (hq : c ≠ '"') (hb : c ≠ '\\') (hc : 0x20 ≤ c.toNat)
    (rest : List Char) :
    readString (c :: rest) = (readString rest).map fun p ↦ (.char c :: p.1, p.2) := by
  rw [readString]
  · rw [if_neg (by omega)]
    cases readString rest <;> rfl
  · exact hq
  · exact fun _ _ _ _ _ h _ ↦ hb h
  · exact fun _ _ h _ ↦ hb h

theorem readString_escapeChar (c : Char) (rest : List Char) :
    readString (escapeChar c ++ rest) =
      (readString rest).map fun p ↦ (Piece.ofChar c :: p.1, p.2) := by
  unfold escapeChar
  split
  case h_8 hq hb _ _ _ _ _ =>
    by_cases hc : c.toNat < 0x20
    · have hu := hexUnit?_control c.toNat hc
      have hp : Piece.ofChar c = .unit c.toNat := by simp_all [Piece.ofChar]
      simp only [hc, if_true, List.cons_append, List.nil_append, readString, hu, hp]
      cases readString rest <;> rfl
    · have hp : Piece.ofChar c = .char c := by simp [Piece.ofChar, hc]
      rw [if_neg hc, hp]
      exact readString_plain hq hb (by omega) rest
  all_goals exact readString_short rfl (by decide) rest

theorem readString_quote (s : String) (rest : List Char) :
    readString (s.toList.flatMap escapeChar ++ '"' :: rest) = some (Piece.ofString s, rest) := by
  unfold Piece.ofString
  induction s.toList with
  | nil => rw [List.flatMap_nil, List.nil_append, readString]; rfl
  | cons c cs ih =>
    rw [List.flatMap_cons, List.append_assoc, readString_escapeChar, ih]
    rfl

theorem chars?_unit {n : Nat} (hn : n < 0xd800) (ps : List Piece) :
    Piece.chars? (.unit n :: ps) = (Piece.chars? ps).map (Char.ofNat n :: ·) := by
  have h₁ : ¬ (0xd800 ≤ n ∧ n < 0xdc00) := by omega
  have h₂ : ¬ (0xdc00 ≤ n ∧ n < 0xe000) := by omega
  have h₃ : ¬ (0xd800 ≤ n ∧ n < 0xe000) := by omega
  rcases ps with _ | ⟨c | m, ps⟩
  · simp only [Piece.chars?, h₃, if_false]
  · simp only [Piece.chars?, h₃, if_false]
  · rw [Piece.chars?, if_neg h₁, if_neg h₂]

theorem chars?_ofChar (cs : List Char) : Piece.chars? (cs.map Piece.ofChar) = some cs := by
  induction cs with
  | nil => rfl
  | cons c cs ih =>
    rw [List.map_cons, Piece.ofChar]
    split
    · rename_i hc
      rw [chars?_unit (by omega), ih, Option.map_some, Char.ofNat_toNat]
    · rw [Piece.chars?, ih, Option.map_some]

theorem text?_ofString (s : String) : Piece.text? (Piece.ofString s) = some s := by
  rw [Piece.text?, Piece.ofString, chars?_ofChar, Option.map_some, String.ofList_toList]

end Strings

section Numbers

open Document NumberToken

theorem natDigits_isDigit {n : Nat} {c : Char} (hc : c ∈ natDigits n) : c.isDigit = true :=
  Nat.isDigit_of_mem_toDigits (by decide) (by decide) hc

theorem natDigits_eq (n : Nat) :
    natDigits n = if n < 10 then [n.digitChar] else natDigits (n / 10) ++ [(n % 10).digitChar] :=
  Nat.toDigits_eq_if (by decide)

theorem natDigits_head_ne_zero {n : Nat} (hn : 0 < n) : (natDigits n).head? ≠ some '0' := by
  induction n using Nat.strongRecOn with
  | ind n ih =>
    rw [natDigits_eq]
    split
    · have hd : ∀ k < 10, 0 < k → k.digitChar ≠ '0' := by decide
      simpa using hd n ‹_› hn
    · have h := ih (n / 10) (by omega) (by omega)
      have hne : natDigits (n / 10) ≠ [] := Nat.toDigits_ne_nil
      rwa [List.head?_append, Option.or_of_isSome (List.isSome_head?.2 hne)]

theorem foldl_digitValues (n : Nat) : (digitValues n).foldl (fun k d ↦ k * 10 + d) 0 = n := by
  have h : ∀ (cs : List Char) (k : Nat), (∀ c ∈ cs, c.isDigit = true) →
      (cs.filterMap digit?).foldl (fun k d ↦ k * 10 + d) k = Nat.ofDigitChars 10 cs k := by
    intro cs
    induction cs with
    | nil => intro k _; rfl
    | cons c cs ih =>
      intro k hcs
      have hc : digit? c = some (c.toNat - 48) := if_pos (hcs c (by simp))
      rw [List.filterMap_cons_some hc, List.foldl_cons, ih _ fun b hb ↦ hcs b (by simp [hb]),
        Nat.ofDigitChars_cons, Nat.mul_comm]
      rfl
  rw [digitValues, h _ 0 fun _ ↦ natDigits_isDigit]
  exact Nat.ofDigitChars_ten_toDigits

theorem readDigits_append {ds rest : List Char} (hd : ∀ c ∈ ds, c.isDigit = true)
    (hr : EndsNumber rest) : readDigits (ds ++ rest) = (ds.filterMap digit?, rest) := by
  have hrest : rest.takeWhile Char.isDigit = [] ∧ rest.dropWhile Char.isDigit = rest := by
    cases rest with
    | nil => exact ⟨rfl, rfl⟩
    | cons c cs =>
      have hc : ¬ c.isDigit = true := by simp [(hr c rfl).1]
      exact ⟨List.takeWhile_cons_of_neg hc, List.dropWhile_cons_of_neg hc⟩
  rw [readDigits, List.takeWhile_append_of_pos hd, List.dropWhile_append_of_pos hd, hrest.1,
    hrest.2, List.append_nil]

theorem digitValues_ne_nil (n : Nat) : digitValues n ≠ [] := by
  intro h
  have hne : natDigits n ≠ [] := Nat.toDigits_ne_nil
  obtain ⟨c, hc⟩ := List.exists_mem_of_ne_nil _ hne
  have hd := List.filterMap_eq_nil_iff.1 h c hc
  simp [digit?, natDigits_isDigit hc] at hd

theorem readWhole_natDigits (n : Nat) {rest : List Char} (hr : EndsNumber rest) :
    readWhole (natDigits n ++ rest) = some (digitValues n, rest) := by
  rcases Nat.eq_zero_or_pos n with rfl | hn
  · rfl
  · have h1 : readDigits1 (natDigits n ++ rest) = some (digitValues n, rest) := by
      rw [readDigits1, readDigits_append (fun _ ↦ natDigits_isDigit) hr]
      cases h : (natDigits n).filterMap digit? with
      | nil => exact absurd h (digitValues_ne_nil n)
      | cons d ds => rw [digitValues, h]
    rw [readWhole, h1]
    intro cs h
    have hne : natDigits n ≠ [] := Nat.toDigits_ne_nil
    apply natDigits_head_ne_zero hn
    have hh := congrArg List.head? h
    rwa [List.head?_append, Option.or_of_isSome (List.isSome_head?.2 hne)] at hh

theorem readUnsigned_natDigits (negative : Bool) (n : Nat) {rest : List Char}
    (hr : EndsNumber rest) :
    readUnsigned negative (natDigits n ++ rest) =
      some (⟨negative, digitValues n, none, none⟩, rest) := by
  have hf : readFraction rest = some (none, rest) := by
    rw [readFraction]
    intro cs h
    exact (hr '.' (by rw [h]; rfl)).2.1 rfl
  have he : readExponent rest = some (none, rest) := by
    cases rest with
    | nil => rfl
    | cons c cs =>
      have hc := hr c rfl
      rw [readExponent.eq_def]
      exact if_neg fun h ↦ h.elim hc.2.2.1 hc.2.2.2
  simp [readUnsigned, readWhole_natDigits n hr, hf, he]

theorem readNumber_intDigits (i : Int) {rest : List Char} (hr : EndsNumber rest) :
    readNumber (intDigits i ++ rest) = some (.ofInt i, rest) := by
  cases i with
  | ofNat n =>
    rw [intDigits, readNumber, readUnsigned_natDigits false n hr]
    · rfl
    · intro cs h
      have hne : natDigits n ≠ [] := Nat.toDigits_ne_nil
      obtain ⟨c, ds, hd⟩ := List.exists_cons_of_ne_nil hne
      rw [hd, List.cons_append, List.cons.injEq] at h
      have hc := natDigits_isDigit (n := n) (c := c) (by rw [hd]; exact List.mem_cons_self)
      rw [h.1] at hc
      exact absurd hc (by decide)
  | negSucc n =>
    rw [intDigits, List.cons_append, readNumber, readUnsigned_natDigits true (n + 1) hr]
    rfl

theorem le_foldl_digits (ds : List Nat) (k : Nat) : k ≤ ds.foldl (fun k d ↦ k * 10 + d) k := by
  induction ds generalizing k with
  | nil => exact Nat.le_refl k
  | cons d ds ih => exact Nat.le_trans (by omega) (ih (k * 10 + d))

theorem takeDigits_of_le {ds : List Nat} {k : Nat}
    (h : ds.foldl (fun k d ↦ k * 10 + d) k ≤ maxWord) :
    takeDigits k ds = (ds.foldl (fun k d ↦ k * 10 + d) k, []) := by
  induction ds generalizing k with
  | nil => rfl
  | cons d ds ih =>
    rw [takeDigits, if_pos (Nat.le_trans (le_foldl_digits ds _) h)]
    exact ih h

theorem takeDigits_digitValues {n : Nat} (h : n ≤ maxWord) : takeDigits 0 (digitValues n) = (n, []) := by
  have hn := foldl_digitValues n
  rw [takeDigits_of_le (by rw [hn]; exact h), hn]

def FitsInteger (i : Int) : Prop :=
  -2 ^ 63 ≤ i ∧ i ≤ maxWord

theorem value?_ofInt {i : Int} (h : FitsInteger i) :
    (NumberToken.ofInt i).value? = some (.integer i) := by
  obtain ⟨hlow, hhigh⟩ := h
  cases i with
  | ofNat n =>
    have hn : n ≤ maxWord := Int.ofNat_le.1 hhigh
    rw [NumberToken.value?, NumberToken.ofInt, takeDigits_digitValues hn]
    rfl
  | negSucc n =>
    have hn : n + 1 ≤ Nat.pow 2 63 := by
      rw [Nat.pow_eq]
      omega
    have hword : n + 1 ≤ maxWord := hn.trans (by decide)
    have hsigned : 0 < n + 1 ∧ n + 1 ≤ Nat.pow 2 63 := ⟨Nat.succ_pos n, hn⟩
    simp only [NumberToken.value?, NumberToken.ofInt, takeDigits_digitValues hword, Bool.not_true,
      Bool.false_eq_true, if_false, if_pos hsigned]
    rfl

theorem word?_toNat (w : UInt64) : word? (.number (.ofInt w.toNat)) = some w := by
  have hv : (NumberToken.ofInt w.toNat).value? = some (.integer w.toNat) :=
    value?_ofInt ⟨by omega, Int.ofNat_le.2 (Nat.le_pred_of_lt w.toNat_lt_size)⟩
  rw [word?, hv]
  exact congrArg some w.ofNat_toNat

end Numbers

section Values

open Document

mutual

def isExact : Json → Bool
  | .number (.float _) => false
  | .array elements => areExact elements
  | .object members => membersExact members
  | _ => true

def areExact : List Json → Bool
  | [] => true
  | v :: rest => isExact v && areExact rest

def membersExact : List (String × Json) → Bool
  | [] => true
  | (_, v) :: rest => isExact v && membersExact rest

end

mutual

/-- The document that a value without floating-point numbers is written as. -/
def document : Json → Document
  | .null => .null
  | .bool b => .bool b
  | .number (.integer i) => .number (.ofInt i)
  | .number (.float _) => .null
  | .string s => .string (Piece.ofString s)
  | .array elements => .array (documents elements)
  | .object members => .object (memberDocuments members)

def documents : List Json → List Document
  | [] => []
  | v :: rest => document v :: documents rest

def memberDocuments : List (String × Json) → List (List Piece × Document)
  | [] => []
  | (k, v) :: rest => (Piece.ofString k, document v) :: memberDocuments rest

end

theorem skipSpace_cons {c : Char} (hc : isSpace c = false) (rest : List Char) :
    skipSpace (c :: rest) = c :: rest := by
  rw [skipSpace, List.dropWhile_cons_of_neg (by simp [hc])]

theorem skipSpace_blanks {blanks : List Char} (h : ∀ c ∈ blanks, isSpace c = true)
    (rest : List Char) : skipSpace (blanks ++ rest) = skipSpace rest := by
  rw [skipSpace, List.dropWhile_append_of_pos h, skipSpace]

theorem readValue_skipSpace {cs cs' : List Char} (h : skipSpace cs = skipSpace cs') (fuel : Nat) :
    readValue fuel cs = readValue fuel cs' := by
  cases fuel with
  | zero => rfl
  | succ fuel => rw [readValue.eq_def, readValue.eq_def]; simp only [h]

theorem endsNumber_brackets {c : Char} (hc : c = ',' ∨ c = ']' ∨ c = '\x7d') (rest : List Char) :
    EndsNumber (c :: rest) := by
  rcases hc with rfl | rfl | rfl <;> exact endsNumber_cons (by decide)

theorem endsNumber_close {blanks : List Char} (h : ∀ c ∈ blanks, isSpace c = true) {c : Char}
    (hc : c = ',' ∨ c = ']' ∨ c = '\x7d') (rest : List Char) :
    EndsNumber (blanks ++ c :: rest) := by
  cases blanks with
  | nil => exact endsNumber_brackets hc rest
  | cons b blanks =>
    have hb := h b List.mem_cons_self
    simp only [isSpace, Bool.or_eq_true, decide_eq_true_eq] at hb
    rcases hb with ((rfl | rfl) | rfl) | rfl <;> exact endsNumber_cons (by decide)

theorem readValue_number {cs rest : List Char} {t : NumberToken} (fuel : Nat)
    (h : readNumber cs = some (t, rest)) (hs : skipSpace cs = cs) :
    readValue (fuel + 1) cs = some (.number t, rest) := by
  rw [readValue.eq_def]
  simp only [hs]
  split <;> first
    | simp [readNumber, readUnsigned, readWhole, readDigits1, readDigits] at h; done
    | simp [h]

theorem readValue_array {cs : List Char} (fuel : Nat) (h : (skipSpace cs).head? ≠ some ']') :
    readValue (fuel + 1) ('[' :: cs) =
      (readElements fuel cs).map fun p ↦ (.array p.1, p.2) := by
  have hs : skipSpace ('[' :: cs) = '[' :: cs := skipSpace_cons rfl cs
  rw [readValue.eq_def]
  simp only [hs]
  split
  · simp_all
  · rfl

theorem readValue_object {cs : List Char} (fuel : Nat) (h : (skipSpace cs).head? ≠ some '\x7d') :
    readValue (fuel + 1) ('\x7b' :: cs) =
      (readMembers fuel cs).map fun p ↦ (.object p.1, p.2) := by
  have hs : skipSpace ('\x7b' :: cs) = '\x7b' :: cs := skipSpace_cons rfl cs
  rw [readValue.eq_def]
  simp only [hs]
  split
  · simp_all
  · rfl

theorem readElements_last {fuel : Nat} {cs rest : List Char} {v : Document} {cs' : List Char}
    (h : readValue fuel cs = some (v, cs')) (hr : skipSpace cs' = ']' :: rest) :
    readElements (fuel + 1) cs = some ([v], rest) := by
  simp [readElements, h, hr]

theorem readElements_next {fuel : Nat} {cs rest : List Char} {v : Document} {cs' : List Char}
    (h : readValue fuel cs = some (v, cs')) (hr : skipSpace cs' = ',' :: rest) :
    readElements (fuel + 1) cs = (readElements fuel rest).map fun p ↦ (v :: p.1, p.2) := by
  simp [readElements, h, hr]
  cases readElements fuel rest <;> rfl

/-- A way to lay out values: the text between the quotes of a string, what stands before an element, a
member or a closing bracket at a depth, and what follows the colon of a member. -/
structure Layout where
  body : String → List Char
  newline : Nat → List Char
  gap : List Char
  readString_body (s : String) (rest : List Char) :
    readString (body s ++ '"' :: rest) = some (Piece.ofString s, rest)
  isSpace_newline (depth : Nat) : ∀ c ∈ newline depth, isSpace c = true
  isSpace_gap : ∀ c ∈ gap, isSpace c = true

namespace Layout

variable (l : Layout)

def quote (s : String) : List Char :=
  '"' :: l.body s ++ ['"']

mutual

def chars (depth : Nat) : Json → List Char
  | .null => "null".toList
  | .bool true => "true".toList
  | .bool false => "false".toList
  | .number n => n.text
  | .string s => l.quote s
  | .array [] => ['[', ']']
  | .array (v :: rest) => '[' :: elements (depth + 1) (v :: rest) ++ l.newline depth ++ [']']
  | .object [] => ['\x7b', '\x7d']
  | .object (m :: rest) => '\x7b' :: members (depth + 1) (m :: rest) ++ l.newline depth ++ ['\x7d']

def elements (depth : Nat) : List Json → List Char
  | [] => []
  | [v] => l.newline depth ++ chars depth v
  | v :: w :: rest => l.newline depth ++ chars depth v ++ ',' :: elements depth (w :: rest)

def members (depth : Nat) : List (String × Json) → List Char
  | [] => []
  | [(k, v)] => l.newline depth ++ l.quote k ++ ':' :: l.gap ++ chars depth v
  | (k, v) :: w :: rest =>
    l.newline depth ++ l.quote k ++ ':' :: l.gap ++ chars depth v ++ ',' :: members depth (w :: rest)

end

def pretty : Layout where
  body s := s.toList.flatMap escapeChar
  newline := Json.newline
  gap := [' ']
  readString_body := readString_quote
  isSpace_newline depth c hc := by
    rcases List.mem_cons.1 hc with rfl | hc
    · rfl
    · rw [(List.mem_replicate.1 hc).2]
      rfl
  isSpace_gap _ hc := List.mem_singleton.1 hc ▸ rfl

def compact : Layout where
  body s := s.toList.flatMap escapeChar
  newline _ := []
  gap := []
  readString_body := readString_quote
  isSpace_newline _ _ hc := by cases hc
  isSpace_gap _ hc := by cases hc

mutual

theorem chars_pretty (v : Json) (depth : Nat) : pretty.chars depth v = prettyChars depth v := by
  match v with
  | .null | .bool true | .bool false | .number _ | .string _ => rfl
  | .array [] | .object [] => rfl
  | .array (v :: vs) => rw [chars, prettyChars, elements_pretty]; rfl
  | .object (m :: ms) => rw [chars, prettyChars, members_pretty]; rfl

theorem elements_pretty (vs : List Json) (depth : Nat) :
    pretty.elements depth vs = prettyElements depth vs := by
  match vs with
  | [] => rfl
  | [v] => rw [elements, prettyElements, chars_pretty]; rfl
  | v :: w :: vs => rw [elements, prettyElements, chars_pretty, elements_pretty]; rfl

theorem members_pretty (ms : List (String × Json)) (depth : Nat) :
    pretty.members depth ms = prettyMembers depth ms := by
  match ms with
  | [] => rfl
  | [(k, v)] => rw [members, prettyMembers, chars_pretty, List.append_assoc]; rfl
  | (k, v) :: m :: ms =>
    rw [members, prettyMembers, chars_pretty, members_pretty, List.append_assoc _ (':' :: _)]
    rfl

end

mutual

theorem chars_compact (v : Json) (depth : Nat) : compact.chars depth v = compactChars v := by
  match v with
  | .null | .bool true | .bool false | .number _ | .string _ => rfl
  | .array [] | .object [] => rfl
  | .array (v :: vs) => rw [chars, compactChars, elements_compact]; exact List.append_nil _ ▸ rfl
  | .object (m :: ms) => rw [chars, compactChars, members_compact]; exact List.append_nil _ ▸ rfl

theorem elements_compact (vs : List Json) (depth : Nat) :
    compact.elements depth vs = compactElements vs := by
  match vs with
  | [] => rfl
  | [v] => rw [elements, compactElements, chars_compact]; rfl
  | v :: w :: vs => rw [elements, compactElements, chars_compact, elements_compact]; rfl

theorem members_compact (ms : List (String × Json)) (depth : Nat) :
    compact.members depth ms = compactMembers ms := by
  match ms with
  | [] => rfl
  | [(k, v)] => rw [members, compactMembers, chars_compact, List.append_assoc]; rfl
  | (k, v) :: m :: ms =>
    rw [members, compactMembers, chars_compact, members_compact, List.append_assoc _ (':' :: _)]
    rfl

end

theorem chars_eq_cons {v : Json} (hv : isExact v = true) (depth : Nat) :
    ∃ c cs, l.chars depth v = c :: cs ∧ isSpace c = false ∧ c ≠ ']' ∧ c ≠ '\x7d' := by
  have hd : ∀ (n : Nat), ∃ c cs, natDigits n = c :: cs ∧ isSpace c = false ∧ c ≠ ']' ∧
      c ≠ '\x7d' := by
    intro n
    obtain ⟨c, cs, h⟩ := List.exists_cons_of_ne_nil (Nat.toDigits_ne_nil (n := n) (b := 10))
    have hc : c.isDigit = true := natDigits_isDigit (n := n) (by rw [natDigits, h]; simp)
    refine ⟨c, cs, h, ?_, ?_, ?_⟩
    · rw [isSpace, Bool.eq_false_iff]
      intro hs
      simp only [Bool.or_eq_true, decide_eq_true_eq] at hs
      rcases hs with ((rfl | rfl) | rfl) | rfl <;> exact absurd hc (by decide)
    · rintro rfl
      exact absurd hc (by decide)
    · rintro rfl
      exact absurd hc (by decide)
  rcases v with _ | (_ | _) | (i | f) | s | (_ | ⟨v, vs⟩) | (_ | ⟨m, ms⟩)
  case number.integer =>
    cases i with
    | ofNat n => simpa only [chars, Number.text, intDigits] using hd n
    | negSucc n => exact ⟨'-', _, rfl, by decide, by decide, by decide⟩
  case number.float => simp [isExact] at hv
  all_goals
    rw [chars]
    exact ⟨_, _, rfl, by decide, by decide, by decide⟩

theorem skipSpace_elements {v : Json} {vs : List Json} (hv : areExact (v :: vs) = true)
    (depth : Nat) (rest : List Char) :
    (skipSpace (l.elements depth (v :: vs) ++ rest)).head? ≠ some ']' := by
  have hv : isExact v = true := by
    rw [areExact, Bool.and_eq_true] at hv
    exact hv.1
  obtain ⟨c, cs, hc, hs, hb, -⟩ := l.chars_eq_cons hv depth
  rcases vs with _ | ⟨w, vs⟩ <;>
    simp only [elements, List.append_assoc, skipSpace_blanks (l.isSpace_newline depth), hc,
      List.cons_append, skipSpace_cons hs, List.head?_cons, ne_eq, Option.some_inj] <;>
    exact hb

theorem skipSpace_members (m : String × Json) (ms : List (String × Json)) (depth : Nat)
    (rest : List Char) :
    (skipSpace (l.members depth (m :: ms) ++ rest)).head? ≠ some '\x7d' := by
  have hq : isSpace '"' = false := rfl
  rcases ms with _ | ⟨n, ms⟩ <;>
    simp [members, skipSpace_blanks (l.isSpace_newline depth), quote, skipSpace_cons hq]

def memberStart (depth : Nat) (k : String) : List Char :=
  l.newline depth ++ l.quote k ++ ':' :: l.gap

theorem skipSpace_memberStart (depth : Nat) (k : String) (cs : List Char) :
    skipSpace (l.memberStart depth k ++ cs) = '"' :: (l.body k ++ '"' :: ':' :: (l.gap ++ cs)) := by
  rw [memberStart, List.append_assoc, List.append_assoc,
    skipSpace_blanks (l.isSpace_newline depth), quote, List.cons_append, List.cons_append,
    skipSpace_cons rfl, List.append_assoc]
  rfl

theorem readValue_gap (fuel : Nat) (cs : List Char) :
    readValue fuel (l.gap ++ cs) = readValue fuel cs :=
  readValue_skipSpace (skipSpace_blanks l.isSpace_gap cs) fuel

theorem readMembers_last {fuel depth : Nat} {k : String} {cs cs' rest : List Char} {v : Document}
    (h : readValue fuel cs = some (v, cs')) (hr : skipSpace cs' = '\x7d' :: rest) :
    readMembers (fuel + 1) (l.memberStart depth k ++ cs) =
      some ([(Piece.ofString k, v)], rest) := by
  have hc : skipSpace (':' :: (l.gap ++ cs)) = ':' :: (l.gap ++ cs) := skipSpace_cons rfl _
  simp [readMembers, skipSpace_memberStart, readString_body, hc, readValue_gap, h, hr]

theorem readMembers_next {fuel depth : Nat} {k : String} {cs cs' rest : List Char} {v : Document}
    (h : readValue fuel cs = some (v, cs')) (hr : skipSpace cs' = ',' :: rest) :
    readMembers (fuel + 1) (l.memberStart depth k ++ cs) =
      (readMembers fuel rest).map fun p ↦ ((Piece.ofString k, v) :: p.1, p.2) := by
  have hc : skipSpace (':' :: (l.gap ++ cs)) = ':' :: (l.gap ++ cs) := skipSpace_cons rfl _
  simp [readMembers, skipSpace_memberStart, readString_body, hc, readValue_gap, h, hr]
  cases readMembers fuel rest <;> rfl

theorem skipSpace_close {c : Char} (hc : isSpace c = false) (depth : Nat) (rest : List Char) :
    skipSpace (l.newline depth ++ c :: rest) = c :: rest := by
  rw [skipSpace_blanks (l.isSpace_newline depth), skipSpace_cons hc]

theorem readValue_newline (fuel depth : Nat) (cs : List Char) :
    readValue fuel (l.newline depth ++ cs) = readValue fuel cs :=
  readValue_skipSpace (skipSpace_blanks (l.isSpace_newline depth) cs) fuel

mutual

theorem readValue_chars (v : Json) (hv : isExact v = true) (depth fuel : Nat)
    {rest : List Char} (hr : EndsNumber rest) (hf : (l.chars depth v).length ≤ fuel) :
    readValue fuel (l.chars depth v ++ rest) = some (document v, rest) := by
  obtain ⟨c, cs, hc, hs, -, -⟩ := l.chars_eq_cons hv depth
  have hskip : skipSpace (l.chars depth v ++ rest) = l.chars depth v ++ rest := by
    rw [hc, List.cons_append, skipSpace_cons hs]
  cases fuel with
  | zero => simp [hc] at hf
  | succ fuel =>
  clear hc hs
  match v with
  | .null => rfl
  | .bool true => rfl
  | .bool false => rfl
  | .number (.integer i) => exact readValue_number fuel (readNumber_intDigits i hr) hskip
  | .number (.float f) => simp [isExact] at hv
  | .string s =>
    have h := l.readString_body s rest
    rw [← List.singleton_append (l := rest), ← List.append_assoc] at h
    change (readString (l.body s ++ ['"'] ++ rest)).map _ = _
    rw [h]
    rfl
  | .array [] => rfl
  | .array (v :: vs) =>
    have h := readElements_elements (v :: vs) (List.cons_ne_nil _ _) hv (depth + 1) fuel
      depth rest (by simp [chars] at hf; omega)
    have he : l.chars depth (.array (v :: vs)) ++ rest =
        '[' :: (l.elements (depth + 1) (v :: vs) ++ (l.newline depth ++ ']' :: rest)) := by
      simp [chars]
    rw [he, readValue_array fuel (l.skipSpace_elements hv _ _), h]
    rfl
  | .object [] => rfl
  | .object (m :: ms) =>
    have h := readMembers_members (m :: ms) (List.cons_ne_nil _ _) hv (depth + 1) fuel
      depth rest (by simp [chars] at hf; omega)
    have he : l.chars depth (.object (m :: ms)) ++ rest =
        '\x7b' :: (l.members (depth + 1) (m :: ms) ++ (l.newline depth ++ '\x7d' :: rest)) := by
      simp [chars]
    rw [he, readValue_object fuel (l.skipSpace_members _ _ _ _), h]
    rfl

theorem readElements_elements (vs : List Json) (hne : vs ≠ []) (hv : areExact vs = true)
    (depth fuel outer : Nat) (rest : List Char) (hf : (l.elements depth vs).length < fuel) :
    readElements fuel (l.elements depth vs ++ (l.newline outer ++ ']' :: rest)) =
      some (documents vs, rest) := by
  match vs with
  | [] => exact absurd rfl hne
  | [v] =>
    have hv : isExact v = true := by simpa [areExact] using hv
    have hl : (l.chars depth v).length < fuel := by
      simp only [elements, List.length_append] at hf
      omega
    obtain ⟨fuel, rfl⟩ : ∃ n, fuel = n + 1 := ⟨fuel - 1, by omega⟩
    have h := readValue_chars v hv depth fuel
      (endsNumber_close (l.isSpace_newline outer) (.inr (.inl rfl)) rest) (by omega)
    rw [elements, List.append_assoc]
    exact readElements_last ((l.readValue_newline _ _ _).trans h) (l.skipSpace_close rfl _ _)
  | v :: w :: vs =>
    have hv : isExact v = true ∧ areExact (w :: vs) = true := by simpa [areExact] using hv
    have hl : (l.chars depth v).length + 1 + (l.elements depth (w :: vs)).length < fuel := by
      rw [elements] at hf
      simp only [List.length_append, List.length_cons] at hf
      omega
    obtain ⟨fuel, rfl⟩ : ∃ n, fuel = n + 1 := ⟨fuel - 1, by omega⟩
    have h := readValue_chars v hv.1 depth fuel (endsNumber_brackets (.inl rfl)
      (l.elements depth (w :: vs) ++ (l.newline outer ++ ']' :: rest))) (by omega)
    have hn := readElements_elements (w :: vs) (List.cons_ne_nil _ _) hv.2 depth fuel outer
      rest (by omega)
    rw [elements, List.append_assoc, List.append_assoc, List.cons_append,
      readElements_next ((l.readValue_newline _ _ _).trans h) (skipSpace_cons rfl _), hn]
    rfl

theorem readMembers_members (ms : List (String × Json)) (hne : ms ≠ [])
    (hv : membersExact ms = true) (depth fuel outer : Nat) (rest : List Char)
    (hf : (l.members depth ms).length < fuel) :
    readMembers fuel (l.members depth ms ++ (l.newline outer ++ '\x7d' :: rest)) =
      some (memberDocuments ms, rest) := by
  match ms with
  | [] => exact absurd rfl hne
  | [(k, v)] =>
    have hv : isExact v = true := by simpa [membersExact] using hv
    have he : l.members depth [(k, v)] = l.memberStart depth k ++ l.chars depth v := by
      simp [members, memberStart]
    have hl : (l.chars depth v).length < fuel := by
      rw [he, List.length_append] at hf
      omega
    obtain ⟨fuel, rfl⟩ : ∃ n, fuel = n + 1 := ⟨fuel - 1, by omega⟩
    have h := readValue_chars v hv depth fuel
      (endsNumber_close (l.isSpace_newline outer) (.inr (.inr rfl)) rest) (by omega)
    rw [he, List.append_assoc]
    exact l.readMembers_last h (l.skipSpace_close rfl _ _)
  | (k, v) :: m :: ms =>
    have hv : isExact v = true ∧ membersExact (m :: ms) = true := by simpa [membersExact] using hv
    have he : l.members depth ((k, v) :: m :: ms) =
        l.memberStart depth k ++ (l.chars depth v ++ ',' :: l.members depth (m :: ms)) := by
      simp [members, memberStart]
    have hl : (l.chars depth v).length + 1 + (l.members depth (m :: ms)).length < fuel := by
      rw [he] at hf
      simp only [List.length_append, List.length_cons] at hf
      omega
    obtain ⟨fuel, rfl⟩ : ∃ n, fuel = n + 1 := ⟨fuel - 1, by omega⟩
    have h := readValue_chars v hv.1 depth fuel (endsNumber_brackets (.inl rfl)
      (l.members depth (m :: ms) ++ (l.newline outer ++ '\x7d' :: rest))) (by omega)
    have hn := readMembers_members (m :: ms) (List.cons_ne_nil _ _) hv.2 depth fuel outer
      rest (by omega)
    rw [he, List.append_assoc, List.append_assoc, List.cons_append,
      l.readMembers_next h (skipSpace_cons rfl _), hn]
    rfl

end

theorem read?_chars {v : Json} (hv : isExact v = true) (depth : Nat) :
    read? (String.ofList (l.chars depth v)) = some (document v) := by
  have hend : EndsNumber [] := fun _ hc ↦ nomatch hc
  have h := l.readValue_chars v hv depth ((l.chars depth v).length + 1) hend (by omega)
  rw [List.append_nil] at h
  rw [read?, String.toList_ofList, h]
  rfl

end Layout

theorem read?_pretty {v : Json} (hv : isExact v = true) : read? v.pretty = some (document v) := by
  rw [pretty, ← Layout.chars_pretty]
  exact Layout.pretty.read?_chars hv 0

end Values

end SiteCompiler.Json
