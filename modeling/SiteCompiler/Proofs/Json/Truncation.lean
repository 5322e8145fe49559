import SiteCompiler.Proofs.Json.Reading

namespace SiteCompiler.Json.Document

theorem skipSpace_append {cs : List Char} (h : skipSpace cs ≠ []) (more : List Char) :
    skipSpace (cs ++ more) = skipSpace cs ++ more := by
  rw [skipSpace, List.dropWhile_append, if_neg]
  · rfl
  · rwa [List.isEmpty_iff]

theorem skipSpace_skipSpace (cs : List Char) : skipSpace (skipSpace cs) = skipSpace cs :=
  List.dropWhile_idempotent isSpace cs

theorem skipSpace_suffix (cs : List Char) : skipSpace cs <:+ cs :=
  List.dropWhile_suffix isSpace

/-- What has been read from the front of a text, and what is left. As long as something is left, the
same is read when the text goes on. -/
structure Reads {α : Type} (read : List Char → Option (α × List Char)) (cs : List Char) (a : α)
    (rest : List Char) : Prop where
  suffix : rest <:+ cs
  append : rest ≠ [] → ∀ more, read (cs ++ more) = some (a, rest ++ more)

variable {cs rest : List Char} {fuel : Nat}

theorem Reads.map {α β : Type} {read : List Char → Option (α × List Char)}
    {read' : List Char → Option (β × List Char)} {a : α} (start : List Char) (f : α → β)
    (h : Reads read cs a rest) (hread : rest ≠ [] → ∀ more,
      read' (start ++ cs ++ more) = (read (cs ++ more)).map fun p ↦ (f p.1, p.2)) :
    Reads read' (start ++ cs) (f a) rest := by
  refine ⟨h.suffix.trans (List.suffix_append start cs), fun hne more ↦ ?_⟩
  rw [hread hne more, h.append hne more]
  rfl

theorem not_starts_append {c : Char} (h : ∀ left, cs = c :: left → False) (hne : cs ≠ [])
    (more left : List Char) : cs ++ more = c :: left → False := by
  obtain ⟨b, bs, rfl⟩ := List.exists_cons_of_ne_nil hne
  intro he
  exact h bs (by rw [(List.cons.inj he).1])

theorem ne_nil_of_suffix (h : rest <:+ cs) (hr : rest ≠ []) : cs ≠ [] := by
  rintro rfl
  exact hr (List.suffix_nil.1 h)

section Strings

variable {ps : List Piece}

theorem readString_append (h : readString cs = some (ps, rest)) :
    rest <:+ cs ∧ ∀ more, readString (cs ++ more) = some (ps, rest ++ more) := by
  fun_induction readString cs generalizing ps with
  | case1 => cases h
  | case2 cs =>
    obtain ⟨rfl, rfl⟩ := Prod.mk.inj (Option.some_inj.1 h)
    exact ⟨List.suffix_cons _ _, fun more ↦ rfl⟩
  | case3 a b c d cs ih =>
    simp only [Option.bind_eq_bind, Option.bind_eq_some_iff] at h
    obtain ⟨n, hn, ⟨qs, left⟩, hq, h⟩ := h
    obtain ⟨rfl, rfl⟩ := Prod.mk.inj (Option.some_inj.1 h)
    obtain ⟨hs, hmore⟩ := ih hq
    refine ⟨hs.trans ⟨['\\', 'u', a, b, c, d], rfl⟩, fun more ↦ ?_⟩
    simp only [List.cons_append, readString, hn, hmore more]
    rfl
  | case4 e cs hu ih =>
    simp only [Option.bind_eq_bind, Option.bind_eq_some_iff] at h
    obtain ⟨c, hc, ⟨qs, left⟩, hq, h⟩ := h
    obtain ⟨rfl, rfl⟩ := Prod.mk.inj (Option.some_inj.1 h)
    obtain ⟨hs, hmore⟩ := ih hq
    have hne : e ≠ 'u' := by
      rintro rfl
      cases hc
    refine ⟨hs.trans ⟨['\\', e], rfl⟩, fun more ↦ ?_⟩
    rw [List.cons_append, List.cons_append, readString_short hc hne, hmore more]
    rfl
  | case5 => cases h
  | case6 c cs hq hu hb hc ih =>
    simp only [Option.bind_eq_bind, Option.bind_eq_some_iff] at h
    obtain ⟨⟨qs, left⟩, hl, h⟩ := h
    obtain ⟨rfl, rfl⟩ := Prod.mk.inj (Option.some_inj.1 h)
    obtain ⟨hs, hmore⟩ := ih hl
    have hne : c ≠ '\\' := by
      rintro rfl
      cases cs with
      | nil => cases hl
      | cons e cs => exact hb e cs rfl rfl
    refine ⟨hs.trans (List.suffix_cons c cs), fun more ↦ ?_⟩
    rw [List.cons_append, readString_plain hq hne (by omega), hmore more]
    rfl

end Strings

section Numbers

variable {ds : List Nat}

theorem readDigits_more (h : (readDigits cs).2 ≠ []) (more : List Char) :
    readDigits (cs ++ more) = ((readDigits cs).1, (readDigits cs).2 ++ more) := by
  have hd : ¬(cs.dropWhile Char.isDigit).isEmpty = true := by rwa [List.isEmpty_iff]
  have ht : (cs.takeWhile Char.isDigit).length ≠ cs.length := by
    intro hl
    have hsum := congrArg List.length (List.takeWhile_append_dropWhile (p := Char.isDigit) (l := cs))
    rw [List.length_append] at hsum
    exact hd (List.isEmpty_iff.2 (List.length_eq_zero_iff.1 (by omega)))
  rw [readDigits, List.dropWhile_append, if_neg hd, List.takeWhile_append, if_neg ht]
  rfl

theorem reads_digits1 (h : readDigits1 cs = some (ds, rest)) : Reads readDigits1 cs ds rest := by
  have hd : readDigits cs = (ds, rest) ∧ ds ≠ [] := by
    rw [readDigits1] at h
    split at h
    · cases h
    · next hne =>
      rw [Option.some_inj] at h
      refine ⟨h, ?_⟩
      rintro rfl
      exact hne _ h
  have hr : rest = (readDigits cs).2 := by rw [hd.1]
  refine ⟨hr ▸ List.dropWhile_suffix Char.isDigit, fun hne more ↦ ?_⟩
  rw [readDigits1, readDigits_more (hr ▸ hne), hd.1]
  split
  · next he => exact absurd (Prod.mk.inj he).1 hd.2
  · rfl

theorem reads_whole (h : readWhole cs = some (ds, rest)) : Reads readWhole cs ds rest := by
  by_cases hz : ∃ left, cs = '0' :: left
  · obtain ⟨left, rfl⟩ := hz
    obtain ⟨rfl, rfl⟩ := Prod.mk.inj (Option.some_inj.1 h)
    exact ⟨List.suffix_cons _ _, fun _ _ ↦ rfl⟩
  · have hz : ∀ left, cs = '0' :: left → False := fun left he ↦ hz ⟨left, he⟩
    rw [readWhole] at h
    · have hr := reads_digits1 h
      refine ⟨hr.suffix, fun hne more ↦ ?_⟩
      rw [readWhole, hr.append hne more]
      exact not_starts_append hz (ne_nil_of_suffix hr.suffix hne) more
    · exact hz

theorem reads_fraction {f : Option (List Nat)} (h : readFraction cs = some (f, rest)) :
    Reads readFraction cs f rest := by
  by_cases hp : ∃ left, cs = '.' :: left
  · obtain ⟨left, rfl⟩ := hp
    obtain ⟨⟨ds, _⟩, hd, h⟩ := Option.map_eq_some_iff.1 h
    obtain ⟨rfl, rfl⟩ := Prod.mk.inj h
    exact (reads_digits1 hd).map ['.'] some fun _ _ ↦ rfl
  · have hp : ∀ left, cs = '.' :: left → False := fun left he ↦ hp ⟨left, he⟩
    rw [readFraction] at h
    · obtain ⟨rfl, rfl⟩ := Prod.mk.inj (Option.some_inj.1 h)
      refine ⟨List.suffix_rfl, fun hne more ↦ ?_⟩
      rw [readFraction]
      exact not_starts_append hp hne more
    · exact hp

theorem readExponent_signed {c : Char} (hc : c = 'e' ∨ c = 'E') (cs : List Char) :
    readExponent (c :: '+' :: cs) =
        (readDigits1 cs).map (fun p ↦ (some (false, p.1), p.2)) ∧
      readExponent (c :: '-' :: cs) =
        (readDigits1 cs).map fun p ↦ (some (true, p.1), p.2) := by
  rw [readExponent.eq_def, readExponent.eq_def]
  exact ⟨if_pos hc, if_pos hc⟩

theorem readExponent_unsigned {c : Char} (hc : c = 'e' ∨ c = 'E') {cs : List Char}
    (hp : ∀ left, cs = '+' :: left → False) (hm : ∀ left, cs = '-' :: left → False) :
    readExponent (c :: cs) = (readDigits1 cs).map fun p ↦ (some (false, p.1), p.2) := by
  rw [readExponent.eq_def]
  dsimp only
  rw [if_pos hc]
  split
  · next left => exact (hp left rfl).elim
  · next left => exact (hm left rfl).elim
  · rfl

theorem reads_exponent {e : Option (Bool × List Nat)} (h : readExponent cs = some (e, rest)) :
    Reads readExponent cs e rest := by
  rcases cs with _ | ⟨c, cs⟩
  · obtain ⟨rfl, rfl⟩ := Prod.mk.inj (Option.some_inj.1 h)
    exact ⟨List.suffix_rfl, fun hne ↦ absurd rfl hne⟩
  by_cases hc : c = 'e' ∨ c = 'E'
  · by_cases hp : ∃ left, cs = '+' :: left
    · obtain ⟨left, rfl⟩ := hp
      rw [(readExponent_signed hc left).1] at h
      obtain ⟨⟨ds, _⟩, hd, h⟩ := Option.map_eq_some_iff.1 h
      obtain ⟨rfl, rfl⟩ := Prod.mk.inj h
      exact (reads_digits1 hd).map [c, '+'] (fun ds ↦ some (false, ds)) fun _ _ ↦
        (readExponent_signed hc _).1
    have hp : ∀ left, cs = '+' :: left → False := fun left he ↦ hp ⟨left, he⟩
    by_cases hm : ∃ left, cs = '-' :: left
    · obtain ⟨left, rfl⟩ := hm
      rw [(readExponent_signed hc left).2] at h
      obtain ⟨⟨ds, _⟩, hd, h⟩ := Option.map_eq_some_iff.1 h
      obtain ⟨rfl, rfl⟩ := Prod.mk.inj h
      exact (reads_digits1 hd).map [c, '-'] (fun ds ↦ some (true, ds)) fun _ _ ↦
        (readExponent_signed hc _).2
    have hm : ∀ left, cs = '-' :: left → False := fun left he ↦ hm ⟨left, he⟩
    rw [readExponent_unsigned hc hp hm] at h
    obtain ⟨⟨ds, _⟩, hd, h⟩ := Option.map_eq_some_iff.1 h
    obtain ⟨rfl, rfl⟩ := Prod.mk.inj h
    have hr := reads_digits1 hd
    refine hr.map [c] (fun ds ↦ some (false, ds)) fun hne more ↦ ?_
    have hcs := ne_nil_of_suffix hr.suffix hne
    exact readExponent_unsigned hc (not_starts_append hp hcs more) (not_starts_append hm hcs more)
  · have hother : ∀ bs, readExponent (c :: bs) = some (none, c :: bs) := fun bs ↦ by
      rw [readExponent.eq_def]
      exact if_neg hc
    rw [hother] at h
    obtain ⟨rfl, rfl⟩ := Prod.mk.inj (Option.some_inj.1 h)
    exact ⟨List.suffix_rfl, fun _ more ↦ hother _⟩

theorem reads_unsigned {negative : Bool} {t : NumberToken}
    (h : readUnsigned negative cs = some (t, rest)) : Reads (readUnsigned negative) cs t rest := by
  simp only [readUnsigned, Option.bind_eq_bind, Option.bind_eq_some_iff] at h
  obtain ⟨⟨whole, cs₁⟩, hw, ⟨fraction, cs₂⟩, hf, ⟨exponent, cs₃⟩, he, h⟩ := h
  obtain ⟨rfl, rfl⟩ := Prod.mk.inj (Option.some_inj.1 h)
  have hw := reads_whole hw
  have hf := reads_fraction hf
  have he := reads_exponent he
  refine ⟨(he.suffix.trans hf.suffix).trans hw.suffix, fun hne more ↦ ?_⟩
  have hne₂ := ne_nil_of_suffix he.suffix hne
  have hne₁ := ne_nil_of_suffix hf.suffix hne₂
  simp only [readUnsigned, hw.append hne₁ more, hf.append hne₂ more, he.append hne more,
    Option.bind_eq_bind, Option.bind_some]
  rfl

theorem reads_number {t : NumberToken} (h : readNumber cs = some (t, rest)) :
    Reads readNumber cs t rest := by
  by_cases hm : ∃ left, cs = '-' :: left
  · obtain ⟨left, rfl⟩ := hm
    have hr : Reads (readUnsigned true) left t rest := reads_unsigned h
    exact ⟨hr.suffix.trans (List.suffix_cons _ _), hr.append⟩
  · have hm : ∀ left, cs = '-' :: left → False := fun left he ↦ hm ⟨left, he⟩
    rw [readNumber] at h
    · have hr := reads_unsigned h
      refine ⟨hr.suffix, fun hne more ↦ ?_⟩
      rw [readNumber, hr.append hne more]
      exact not_starts_append hm (ne_nil_of_suffix hr.suffix hne) more
    · exact hm

end Numbers

section Values

theorem readValue_eq_none (h : ∀ c ∈ (skipSpace cs).head?, c = ']') : readValue fuel cs = none := by
  cases fuel with
  | zero => rfl
  | succ fuel =>
    rw [readValue.eq_def]
    dsimp only
    rcases hs : skipSpace cs with _ | ⟨c, left⟩
    · rfl
    · obtain rfl := h c (by rw [hs]; rfl)
      rfl

theorem skipSpace_of_readValue {v : Document} (h : readValue fuel cs = some (v, rest)) :
    ∃ c left, skipSpace cs = c :: left ∧ c ≠ ']' := by
  by_contra hc
  rw [readValue_eq_none] at h
  · cases h
  · intro c hh
    by_contra hne
    obtain ⟨left, hl⟩ := List.head?_eq_some_iff.1 hh
    exact hc ⟨c, left, hl, hne⟩

theorem skipSpace_of_readElements {vs : List Document} (h : readElements fuel cs = some (vs, rest)) :
    ∃ c left, skipSpace cs = c :: left ∧ c ≠ ']' := by
  cases fuel with
  | zero => cases h
  | succ fuel =>
    rw [readElements] at h
    obtain ⟨⟨v, left⟩, hv, -⟩ := Option.bind_eq_some_iff.1 h
    exact skipSpace_of_readValue hv

theorem skipSpace_of_readMembers {ms : List (List Piece × Document)}
    (h : readMembers fuel cs = some (ms, rest)) : ∃ left, skipSpace cs = '"' :: left := by
  cases fuel with
  | zero => cases h
  | succ fuel =>
    rw [readMembers] at h
    split at h
    · next left hs => exact ⟨left, hs⟩
    · cases h

theorem suffix_of_skipSpace {c : Char} (h : skipSpace cs = c :: rest) :
    (∃ before, cs = before ++ c :: rest) ∧ ∀ more, skipSpace (cs ++ more) = c :: (rest ++ more) := by
  obtain ⟨before, hb⟩ := h ▸ skipSpace_suffix cs
  refine ⟨⟨before, hb.symm⟩, fun more ↦ ?_⟩
  rw [skipSpace_append (h ▸ List.cons_ne_nil c rest), h]
  rfl

theorem readValue_emptyArray (fuel : Nat) (h : skipSpace cs = ']' :: rest) :
    readValue (fuel + 1) ('[' :: cs) = some (.array [], rest) := by
  rw [readValue.eq_def]
  simp [skipSpace_cons (show isSpace '[' = false from rfl), h]

theorem readValue_emptyObject (fuel : Nat) (h : skipSpace cs = '\x7d' :: rest) :
    readValue (fuel + 1) ('\x7b' :: cs) = some (.object [], rest) := by
  rw [readValue.eq_def]
  simp [skipSpace_cons (show isSpace '\x7b' = false from rfl), h]

/-- What is read with some fuel is read with more of it as well, and when the text goes on. Elements
and members end with their bracket, whatever follows. -/
structure GoesOn (fuel : Nat) : Prop where
  value : ∀ {cs rest : List Char} {v : Document}, readValue fuel cs = some (v, rest) →
    rest <:+ cs ∧ (rest ≠ [] → ∀ fuel', fuel ≤ fuel' → ∀ more,
      readValue fuel' (cs ++ more) = some (v, rest ++ more))
  elements : ∀ {cs rest : List Char} {vs : List Document}, readElements fuel cs = some (vs, rest) →
    (∃ before, cs = before ++ ']' :: rest) ∧ ∀ fuel', fuel ≤ fuel' → ∀ more,
      readElements fuel' (cs ++ more) = some (vs, rest ++ more)
  members : ∀ {cs rest : List Char} {ms : List (List Piece × Document)},
    readMembers fuel cs = some (ms, rest) →
    (∃ before, cs = before ++ '\x7d' :: rest) ∧ ∀ fuel', fuel ≤ fuel' → ∀ more,
      readMembers fuel' (cs ++ more) = some (ms, rest ++ more)

theorem GoesOn.object (ih : GoesOn fuel) {v : Document}
    (h : readValue (fuel + 1) ('\x7b' :: cs) = some (v, rest)) :
    (∃ before, '\x7b' :: cs = before ++ '\x7d' :: rest) ∧ ∀ fuel', fuel ≤ fuel' → ∀ more,
      readValue (fuel' + 1) ('\x7b' :: cs ++ more) = some (v, rest ++ more) := by
  rw [readValue.eq_def] at h
  simp only [skipSpace_cons (show isSpace '\x7b' = false from rfl)] at h
  split at h
  · next left hs =>
    obtain ⟨rfl, rfl⟩ := Prod.mk.inj (Option.some_inj.1 h)
    obtain ⟨⟨before, hb⟩, hmore⟩ := suffix_of_skipSpace hs
    refine ⟨⟨'\x7b' :: before, by rw [hb]; rfl⟩, fun fuel' _ more ↦ ?_⟩
    exact readValue_emptyObject fuel' (hmore more)
  · obtain ⟨⟨ms, _⟩, hms, h⟩ := Option.map_eq_some_iff.1 h
    obtain ⟨rfl, rfl⟩ := Prod.mk.inj h
    obtain ⟨⟨before, hb⟩, hmore⟩ := ih.members hms
    obtain ⟨left, hs⟩ := skipSpace_of_readMembers hms
    refine ⟨⟨'\x7b' :: before, by rw [hb]; rfl⟩, fun fuel' hf more ↦ ?_⟩
    rw [List.cons_append, readValue_object fuel', hmore fuel' hf more]
    · rfl
    · rw [(suffix_of_skipSpace hs).2 more]
      simp

theorem GoesOn.value_succ (ih : GoesOn fuel) {v : Document}
    (h : readValue (fuel + 1) cs = some (v, rest)) :
    rest <:+ cs ∧ (rest ≠ [] → ∀ fuel', fuel + 1 ≤ fuel' → ∀ more,
      readValue fuel' (cs ++ more) = some (v, rest ++ more)) := by
  obtain ⟨c, left, hs, -⟩ := skipSpace_of_readValue h
  have hcs : skipSpace cs ≠ [] := hs ▸ List.cons_ne_nil c left
  suffices hread : rest <:+ skipSpace cs ∧ (rest ≠ [] → ∀ fuel', fuel ≤ fuel' → ∀ more,
      readValue (fuel' + 1) (skipSpace cs ++ more) = some (v, rest ++ more)) by
    refine ⟨hread.1.trans (skipSpace_suffix cs), fun hne fuel' hf more ↦ ?_⟩
    obtain ⟨fuel', rfl⟩ : ∃ n, fuel' = n + 1 := ⟨fuel' - 1, by omega⟩
    rw [← hread.2 hne fuel' (by omega) more]
    refine readValue_skipSpace ?_ _
    rw [skipSpace_append hcs, skipSpace_append (by rwa [skipSpace_skipSpace]), skipSpace_skipSpace]
  have hvalue := h
  rw [readValue.eq_def] at h
  dsimp only at h
  split at h
  · next left he =>
    obtain ⟨rfl, rfl⟩ := Prod.mk.inj (Option.some_inj.1 h)
    rw [he]
    exact ⟨⟨"null".toList, rfl⟩, fun _ _ _ _ ↦ rfl⟩
  · next left he =>
    obtain ⟨rfl, rfl⟩ := Prod.mk.inj (Option.some_inj.1 h)
    rw [he]
    exact ⟨⟨"true".toList, rfl⟩, fun _ _ _ _ ↦ rfl⟩
  · next left he =>
    obtain ⟨rfl, rfl⟩ := Prod.mk.inj (Option.some_inj.1 h)
    rw [he]
    exact ⟨⟨"false".toList, rfl⟩, fun _ _ _ _ ↦ rfl⟩
  · next left he =>
    obtain ⟨⟨ps, _⟩, hp, h⟩ := Option.map_eq_some_iff.1 h
    obtain ⟨rfl, rfl⟩ := Prod.mk.inj h
    obtain ⟨hsuffix, hmore⟩ := readString_append hp
    rw [he]
    refine ⟨hsuffix.trans (List.suffix_cons _ _), fun _ fuel' _ more ↦ ?_⟩
    change (readString (left ++ more)).map _ = _
    rw [hmore more]
    rfl
  · next left he =>
    rw [he]
    split at h
    · next left' he' =>
      obtain ⟨rfl, rfl⟩ := Prod.mk.inj (Option.some_inj.1 h)
      obtain ⟨⟨before, hb⟩, hmore⟩ := suffix_of_skipSpace he'
      refine ⟨⟨'[' :: before ++ [']'], by simp [hb]⟩, fun _ fuel' _ more ↦ ?_⟩
      rw [List.cons_append, readValue_emptyArray fuel' (hmore more)]
    · obtain ⟨⟨vs, _⟩, hvs, h⟩ := Option.map_eq_some_iff.1 h
      obtain ⟨rfl, rfl⟩ := Prod.mk.inj h
      obtain ⟨⟨before, hb⟩, hmore⟩ := ih.elements hvs
      obtain ⟨c, left', hc, hne⟩ := skipSpace_of_readElements hvs
      refine ⟨⟨'[' :: before ++ [']'], by simp [hb]⟩, fun _ fuel' hf more ↦ ?_⟩
      rw [List.cons_append, readValue_array fuel', hmore fuel' hf more]
      · rfl
      · rw [(suffix_of_skipSpace hc).2 more]
        simpa using hne
  · next left he =>
    rw [← readValue_skipSpace (skipSpace_skipSpace cs), he] at hvalue
    obtain ⟨⟨before, hb⟩, hmore⟩ := ih.object hvalue
    rw [he]
    refine ⟨hb ▸ ⟨before ++ ['\x7d'], by simp⟩, fun _ ↦ hmore⟩
  · next hnumber =>
    obtain ⟨⟨t, _⟩, ht, h⟩ := Option.map_eq_some_iff.1 h
    obtain ⟨rfl, rfl⟩ := Prod.mk.inj h
    have hr := reads_number ht
    refine ⟨hr.suffix, fun hne fuel' _ more ↦ readValue_number fuel' (hr.append hne more) ?_⟩
    rw [skipSpace_append (by rwa [skipSpace_skipSpace]), skipSpace_skipSpace]

theorem readElements_eq_some {vs : List Document}
    (h : readElements (fuel + 1) cs = some (vs, rest)) :
    ∃ v left, readValue fuel cs = some (v, left) ∧
      (skipSpace left = ']' :: rest ∧ vs = [v] ∨
        ∃ left' vs', skipSpace left = ',' :: left' ∧ readElements fuel left' = some (vs', rest) ∧
          vs = v :: vs') := by
  rw [readElements] at h
  obtain ⟨⟨v, left⟩, hv, h⟩ := Option.bind_eq_some_iff.1 h
  refine ⟨v, left, hv, ?_⟩
  dsimp only at h
  split at h
  · next hs =>
    obtain ⟨rfl, rfl⟩ := Prod.mk.inj (Option.some_inj.1 h)
    exact .inl ⟨hs, rfl⟩
  · next left' hs =>
    obtain ⟨⟨vs', _⟩, hvs, h⟩ := Option.bind_eq_some_iff.1 h
    obtain ⟨rfl, rfl⟩ := Prod.mk.inj (Option.some_inj.1 h)
    exact .inr ⟨left', vs', hs, hvs, rfl⟩
  · cases h

theorem GoesOn.elements_succ (ih : GoesOn fuel) {vs : List Document}
    (h : readElements (fuel + 1) cs = some (vs, rest)) :
    (∃ before, cs = before ++ ']' :: rest) ∧ ∀ fuel', fuel + 1 ≤ fuel' → ∀ more,
      readElements fuel' (cs ++ more) = some (vs, rest ++ more) := by
  obtain ⟨v, left, hv, hend⟩ := readElements_eq_some h
  obtain ⟨⟨start, rfl⟩, hvalue⟩ := ih.value hv
  rcases hend with ⟨hs, rfl⟩ | ⟨left', vs', hs, hvs, rfl⟩
  · obtain ⟨⟨before, rfl⟩, hmore⟩ := suffix_of_skipSpace hs
    refine ⟨⟨start ++ before, by simp⟩, fun fuel' hf more ↦ ?_⟩
    obtain ⟨fuel', rfl⟩ : ∃ n, fuel' = n + 1 := ⟨fuel' - 1, by omega⟩
    exact readElements_last (hvalue (by simp) fuel' (by omega) more) (hmore more)
  · obtain ⟨⟨before, rfl⟩, hmore⟩ := suffix_of_skipSpace hs
    obtain ⟨⟨before', rfl⟩, hrest⟩ := ih.elements hvs
    refine ⟨⟨start ++ before ++ ',' :: before', by simp⟩, fun fuel' hf more ↦ ?_⟩
    obtain ⟨fuel', rfl⟩ : ∃ n, fuel' = n + 1 := ⟨fuel' - 1, by omega⟩
    rw [readElements_next (hvalue (by simp) fuel' (by omega) more) (hmore more),
      hrest fuel' (by omega) more]
    rfl

def ReadsKey (cs : List Char) (key : List Piece) (left : List Char) : Prop :=
  ∃ cs₁ cs₂, skipSpace cs = '"' :: cs₁ ∧ readString cs₁ = some (key, cs₂) ∧
    skipSpace cs₂ = ':' :: left

theorem ReadsKey.append {key : List Piece} (h : ReadsKey cs key rest) :
    rest <:+ cs ∧ ∀ more, ReadsKey (cs ++ more) key (rest ++ more) := by
  obtain ⟨cs₁, cs₂, hquote, hkey, hcolon⟩ := h
  obtain ⟨⟨b₁, rfl⟩, hmore₁⟩ := suffix_of_skipSpace hquote
  obtain ⟨⟨b₂, rfl⟩, hmore₂⟩ := readString_append hkey
  obtain ⟨⟨b₃, rfl⟩, hmore₃⟩ := suffix_of_skipSpace hcolon
  exact ⟨⟨b₁ ++ '"' :: b₂ ++ b₃ ++ [':'], by simp⟩, fun more ↦
    ⟨_, _, hmore₁ more, hmore₂ more, hmore₃ more⟩⟩

theorem readMembers_eq_some {ms : List (List Piece × Document)}
    (h : readMembers (fuel + 1) cs = some (ms, rest)) :
    ∃ key start v left, ReadsKey cs key start ∧ readValue fuel start = some (v, left) ∧
      (skipSpace left = '\x7d' :: rest ∧ ms = [(key, v)] ∨
        ∃ left' ms', skipSpace left = ',' :: left' ∧ readMembers fuel left' = some (ms', rest) ∧
          ms = (key, v) :: ms') := by
  rw [readMembers] at h
  split at h
  · next cs₁ hquote =>
    obtain ⟨⟨key, cs₂⟩, hkey, h⟩ := Option.bind_eq_some_iff.1 h
    dsimp only at h
    split at h
    · next start hcolon =>
      obtain ⟨⟨v, left⟩, hv, h⟩ := Option.bind_eq_some_iff.1 h
      refine ⟨key, start, v, left, ⟨cs₁, cs₂, hquote, hkey, hcolon⟩, hv, ?_⟩
      dsimp only at h
      split at h
      · next hs =>
        obtain ⟨rfl, rfl⟩ := Prod.mk.inj (Option.some_inj.1 h)
        exact .inl ⟨hs, rfl⟩
      · next left' hs =>
        obtain ⟨⟨ms', _⟩, hms, h⟩ := Option.bind_eq_some_iff.1 h
        obtain ⟨rfl, rfl⟩ := Prod.mk.inj (Option.some_inj.1 h)
        exact .inr ⟨left', ms', hs, hms, rfl⟩
      · cases h
    · cases h
  · cases h

theorem ReadsKey.readMembers_last {key : List Piece} {start left : List Char} {v : Document}
    (hk : ReadsKey cs key start) (hv : readValue fuel start = some (v, left))
    (hs : skipSpace left = '\x7d' :: rest) :
    readMembers (fuel + 1) cs = some ([(key, v)], rest) := by
  obtain ⟨cs₁, cs₂, hquote, hkey, hcolon⟩ := hk
  simp [readMembers, hquote, hkey, hcolon, hv, hs]

theorem ReadsKey.readMembers_next {key : List Piece} {start left left' : List Char} {v : Document}
    {ms : List (List Piece × Document)} (hk : ReadsKey cs key start)
    (hv : readValue fuel start = some (v, left)) (hs : skipSpace left = ',' :: left')
    (hms : readMembers fuel left' = some (ms, rest)) :
    readMembers (fuel + 1) cs = some ((key, v) :: ms, rest) := by
  obtain ⟨cs₁, cs₂, hquote, hkey, hcolon⟩ := hk
  simp [readMembers, hquote, hkey, hcolon, hv, hs, hms]

theorem GoesOn.members_succ (ih : GoesOn fuel) {ms : List (List Piece × Document)}
    (h : readMembers (fuel + 1) cs = some (ms, rest)) :
    (∃ before, cs = before ++ '\x7d' :: rest) ∧ ∀ fuel', fuel + 1 ≤ fuel' → ∀ more,
      readMembers fuel' (cs ++ more) = some (ms, rest ++ more) := by
  obtain ⟨key, start, v, left, hk, hv, hend⟩ := readMembers_eq_some h
  obtain ⟨⟨before, rfl⟩, hkey⟩ := hk.append
  obtain ⟨⟨value, rfl⟩, hvalue⟩ := ih.value hv
  rcases hend with ⟨hs, rfl⟩ | ⟨left', ms', hs, hms, rfl⟩
  · obtain ⟨⟨space, rfl⟩, hmore⟩ := suffix_of_skipSpace hs
    refine ⟨⟨before ++ value ++ space, by simp⟩, fun fuel' hf more ↦ ?_⟩
    obtain ⟨fuel', rfl⟩ : ∃ n, fuel' = n + 1 := ⟨fuel' - 1, by omega⟩
    exact (hkey more).readMembers_last (hvalue (by simp) fuel' (by omega) more) (hmore more)
  · obtain ⟨⟨space, rfl⟩, hmore⟩ := suffix_of_skipSpace hs
    obtain ⟨⟨others, rfl⟩, hrest⟩ := ih.members hms
    refine ⟨⟨before ++ value ++ space ++ ',' :: others, by simp⟩, fun fuel' hf more ↦ ?_⟩
    obtain ⟨fuel', rfl⟩ : ∃ n, fuel' = n + 1 := ⟨fuel' - 1, by omega⟩
    exact (hkey more).readMembers_next (hvalue (by simp) fuel' (by omega) more) (hmore more)
      (hrest fuel' (by omega) more)

theorem goesOn (fuel : Nat) : GoesOn fuel := by
  induction fuel with
  | zero => exact ⟨fun h ↦ (nomatch h), fun h ↦ (nomatch h), fun h ↦ (nomatch h)⟩
  | succ fuel ih => exact ⟨ih.value_succ, ih.elements_succ, ih.members_succ⟩

theorem read?_eq_some {text : String} {d : Document} (h : read? text = some d) : ∃ rest,
    readValue (text.toList.length + 1) text.toList = some (d, rest) ∧
      ∀ c ∈ rest, isSpace c = true := by
  rw [read?] at h
  split at h
  · next v rest hv =>
    split at h
    · next hspace =>
      obtain rfl := Option.some_inj.1 h
      exact ⟨rest, hv, List.dropWhile_eq_nil_iff.1 (List.isEmpty_iff.1 hspace)⟩
    · cases h
  · cases h

variable {text more : String} {d d' : Document}

theorem isSpace_of_read?_append (hs : text.toList = '\x7b' :: cs) (h : read? text = some d)
    (h' : read? (text ++ more) = some d') : ∀ c ∈ more.toList, isSpace c = true := by
  obtain ⟨rest, hv, -⟩ := read?_eq_some h
  obtain ⟨rest', hv', hspace⟩ := read?_eq_some h'
  rw [hs] at hv
  rw [String.toList_append, hs, ((goesOn _).object hv).2 _ (by simp)] at hv'
  obtain ⟨-, rfl⟩ := Prod.mk.inj (Option.some_inj.1 hv')
  exact fun c hc ↦ hspace c (List.mem_append_right rest hc)

theorem last_of_read? (hs : text.toList = '\x7b' :: cs) (h : read? text = some d) :
    ∀ c ∈ text.toList.getLast?, c = '\x7d' ∨ isSpace c = true := by
  obtain ⟨rest, hv, hspace⟩ := read?_eq_some h
  rw [hs] at hv
  obtain ⟨⟨before, hb⟩, -⟩ := (goesOn _).object hv
  intro c hc
  rw [hs, hb, List.getLast?_append_of_ne_nil _ (List.cons_ne_nil _ _)] at hc
  exact (List.mem_cons.1 (List.mem_of_getLast? hc)).imp_right (hspace c)

end Values

end SiteCompiler.Json.Document
