import Mathlib
import SiteCompiler.Proofs.ArtifactStore
import SiteCompiler.Proofs.Compilation
import SiteCompiler.Proofs.HashSlot
import SiteCompiler.Proofs.Text.Utf8

namespace SiteCompiler.HashSlot

open Digest

variable {code code' : List Char} {slots : List HashSlot} {hashes : List String}
variable {slot s t : HashSlot} {offset i : ℕ} {inside : List Char}

section Octets

def bytes (cs : List Char) : List UInt8 :=
  cs.flatMap String.utf8EncodeChar

theorem bytes_append (cs ds : List Char) : bytes (cs ++ ds) = bytes cs ++ bytes ds :=
  List.flatMap_append

theorem length_bytes (cs : List Char) : (bytes cs).length = octets cs := by
  induction cs with
  | nil => rfl
  | cons c cs ih =>
    rw [bytes, List.flatMap_cons, List.length_append, String.length_utf8EncodeChar, octets_cons]
    exact congrArg (c.utf8Size + ·) ih

theorem bytes_inj {cs ds : List Char} (h : bytes cs = bytes ds) : cs = ds := by
  have hu : (String.ofList cs).toUTF8 = (String.ofList ds).toUTF8 := by
    refine ByteArray.ext (Array.toList_inj.1 ?_)
    rw [Text.Utf8.toUTF8_ofList, Text.Utf8.toUTF8_ofList]
    exact h
  exact String.ofList_injective (Text.Utf8.toUTF8_inj hu)

def octet? (code : String) (i : ℕ) : Option UInt8 :=
  code.toUTF8.data[i]?

theorem octet?_ofList (cs : List Char) (i : ℕ) : octet? (.ofList cs) i = (bytes cs)[i]? := by
  rw [octet?, ← Array.getElem?_toList, Text.Utf8.toUTF8_ofList, bytes]

theorem octet?_eq (code : String) (i : ℕ) : octet? code i = (bytes code.toList)[i]? := by
  rw [← octet?_ofList, String.ofList_toList]

theorem Holds.getElem?_bytes (h : Holds code offset inside) (hl : offset ≤ i)
    (hr : i < offset + prefixLength) : (bytes code)[i]? = (bytes inside)[i - offset]? := by
  obtain ⟨before, after, rfl, rfl, hi, -⟩ := h
  rw [List.append_assoc, bytes_append, bytes_append,
    List.getElem?_append_right (by rw [length_bytes]; exact hl),
    List.getElem?_append_left (by rw [length_bytes, length_bytes, hi]; omega), length_bytes]

theorem getElem?_bytes_exchange {before new after : List Char} (hi : octets inside = prefixLength)
    (hn : octets new = prefixLength)
    (h : i < octets before ∨ octets before + prefixLength ≤ i) :
    (bytes (before ++ new ++ after))[i]? = (bytes (before ++ inside ++ after))[i]? := by
  rw [List.append_assoc, List.append_assoc, bytes_append, bytes_append, bytes_append, bytes_append]
  rcases h with h | h
  · rw [List.getElem?_append_left (by rw [length_bytes]; exact h),
      List.getElem?_append_left (by rw [length_bytes]; exact h)]
  · have hb : (bytes before).length ≤ i := by rw [length_bytes]; omega
    rw [List.getElem?_append_right hb, List.getElem?_append_right hb,
      List.getElem?_append_right (by rw [length_bytes, length_bytes]; omega),
      List.getElem?_append_right (by rw [length_bytes, length_bytes]; omega), length_bytes,
      length_bytes, length_bytes, hi, hn]

end Octets

section Step

/-- A hash that starts with nine ASCII letters and digits, unless it is shorter than nine octets. -/
def Plain (hash : String) : Prop :=
  prefixLength ≤ hash.utf8ByteSize → ∀ c ∈ hash.toList.take prefixLength, c.isAlphanum = true

theorem Plain.octets_take {hash : String} (h : Plain hash)
    (hl : prefixLength ≤ hash.utf8ByteSize) :
    octets (hash.toList.take prefixLength) = prefixLength := by
  have hone : ∀ c ∈ hash.toList.take prefixLength, c.utf8Size = 1 := fun c hc ↦
    Compiled.utf8Size_of_isPlain (by rw [Script.Points.isPlain, h hl c hc]; rfl)
  rw [octets_of_ascii hone, List.length_take, Nat.min_eq_left]
  refine Nat.le_of_not_lt fun hshort ↦ ?_
  -- a shorter text of one octet a character would have too few octets
  rw [List.take_of_length_le hshort.le] at hone
  rw [utf8ByteSize_eq_octets, octets_of_ascii hone] at hl
  exact absurd hl (Nat.not_le_of_lt hshort)

theorem Plain.splitAtOctet {hash : String} (h : Plain hash)
    (hl : prefixLength ≤ hash.utf8ByteSize) : Digest.splitAtOctet prefixLength hash.toList =
      some (hash.toList.take prefixLength, hash.toList.drop prefixLength) :=
  splitAtOctet_eq_some.2 ⟨(List.take_append_drop _ _).symm, h.octets_take hl⟩

theorem usable?_eq_some {dependency : ℕ} {hash : String} :
    usable? hashes dependency = some hash ↔
      hashes[dependency]? = some hash ∧ prefixLength ≤ hash.utf8ByteSize := by
  rw [usable?, Option.filter_eq_some_iff, decide_eq_true_eq]

def Fits (code : List Char) (slot : HashSlot) : Prop :=
  ∃ inside, Holds code slot.offset.toNat inside

def written (hashes : List String) (slot : HashSlot) (inside : List Char) : List Char :=
  match usable? hashes slot.dependency.toNat with
  | some hash => hash.toList.take prefixLength
  | none => inside

def fillAt (hashes : List String) (code : List Char) (slot : HashSlot) : List Char :=
  match cut? code slot with
  | some (before, inside, after) => before ++ written hashes slot inside ++ after
  | none => code

theorem octets_written (hh : ∀ hash ∈ hashes, Plain hash) (slot : HashSlot)
    (hi : octets inside = prefixLength) : octets (written hashes slot inside) = prefixLength := by
  rw [written]
  cases hu : usable? hashes slot.dependency.toNat with
  | none => exact hi
  | some hash =>
    obtain ⟨hm, hl⟩ := usable?_eq_some.1 hu
    exact (hh hash (List.mem_of_getElem? hm)).octets_take hl

theorem cut?_of_not_fits (h : ¬ Fits code slot) : cut? code slot = none := by
  refine Option.eq_none_iff_forall_ne_some.2 fun parts hc ↦ h ?_
  obtain ⟨before, inside, after⟩ := parts
  exact ⟨inside, before, after, cut?_eq_some.1 hc⟩

theorem fillAt_of_not_fits (h : ¬ Fits code slot) : fillAt hashes code slot = code := by
  rw [fillAt, cut?_of_not_fits h]

theorem fillAt_append {before after : List Char} (hb : octets before = slot.offset.toNat)
    (hi : octets inside = prefixLength)
    (hw : slot.offset.toNat + prefixLength < UInt64.size) :
    fillAt hashes (before ++ inside ++ after) slot =
      before ++ written hashes slot inside ++ after := by
  rw [fillAt, cut?_eq_some.2 ⟨rfl, hb, hi, hw⟩]

/-- Filling one slot gives the code with the slot filled, and tells whether that is another. -/
theorem fillOne_eq (hh : ∀ hash ∈ hashes, Plain hash) (code : List Char) (slot : HashSlot) :
    fillOne hashes code slot =
      some (decide (fillAt hashes code slot ≠ code), fillAt hashes code slot) := by
  rw [fillOne]
  by_cases hc : Fits code slot
  · obtain ⟨inside, before, after, rfl, hb, hi, hw⟩ := hc
    rw [fillAt_append hb hi hw, cut?_eq_some.2 ⟨rfl, hb, hi, hw⟩, written]
    cases hu : usable? hashes slot.dependency.toNat with
    | none => simp
    | some hash =>
      obtain ⟨hm, hl⟩ := usable?_eq_some.1 hu
      have hsplit := (hh hash (List.mem_of_getElem? hm)).splitAtOctet hl
      by_cases he : inside = hash.toList.take prefixLength
      · simp [hsplit, he]
      · simp [hsplit, he, Ne.symm he]
  · rw [fillAt_of_not_fits hc, cut?_of_not_fits hc]
    cases hu : usable? hashes slot.dependency.toNat with
    | none => simp
    | some hash =>
      obtain ⟨hm, hl⟩ := usable?_eq_some.1 hu
      have hsplit := (hh hash (List.mem_of_getElem? hm)).splitAtOctet hl
      simp [hsplit]

theorem holds_fillAt (hh : ∀ hash ∈ hashes, Plain hash)
    (h : Holds code slot.offset.toNat inside) :
    Holds (fillAt hashes code slot) slot.offset.toNat (written hashes slot inside) := by
  obtain ⟨before, after, rfl, hb, hi, hw⟩ := h
  rw [fillAt_append hb hi hw]
  exact ⟨before, after, rfl, hb, octets_written hh slot hi, hw⟩

theorem Holds.fillAt (hh : ∀ hash ∈ hashes, Plain hash) (h : Holds code s.offset.toNat inside)
    (ha : Apart s slot) : Holds (fillAt hashes code slot) s.offset.toNat inside := by
  by_cases hc : Fits code slot
  · obtain ⟨x, before, after, rfl, hb, hx, hw⟩ := hc
    rw [fillAt_append hb hx hw]
    exact h.replace hx (octets_written hh slot hx) (by rw [hb]; exact ha.symm)
  · rwa [fillAt_of_not_fits hc]

theorem Fits.fillAt (hh : ∀ hash ∈ hashes, Plain hash) (h : Fits code s) (ha : s = slot ∨ Apart s slot) :
    Fits (fillAt hashes code slot) s := by
  obtain ⟨inside, h⟩ := h
  rcases ha with rfl | ha
  · exact ⟨_, holds_fillAt hh h⟩
  · exact ⟨_, h.fillAt hh ha⟩

theorem fits_of_fillAt (hh : ∀ hash ∈ hashes, Plain hash) (h : Fits (fillAt hashes code slot) s)
    (ha : s = slot ∨ Apart s slot) : Fits code s := by
  by_cases hc : Fits code slot
  · obtain ⟨x, before, after, rfl, hb, hx, hw⟩ := hc
    rcases ha with rfl | ha
    · exact ⟨x, before, after, rfl, hb, hx, hw⟩
    · obtain ⟨inside, h⟩ := h
      rw [fillAt_append hb hx hw] at h
      exact ⟨inside, h.replace (octets_written hh slot hx) hx (by rw [hb]; exact ha.symm)⟩
  · rwa [fillAt_of_not_fits hc] at h

theorem getElem?_fillAt (hh : ∀ hash ∈ hashes, Plain hash)
    (h : Fits code slot → (usable? hashes slot.dependency.toNat).isSome = true →
      i < slot.offset.toNat ∨ slot.offset.toNat + prefixLength ≤ i) :
    (bytes (fillAt hashes code slot))[i]? = (bytes code)[i]? := by
  by_cases hc : Fits code slot
  · have hi := h hc
    obtain ⟨x, before, after, rfl, hb, hx, hw⟩ := hc
    rw [fillAt_append hb hx hw]
    cases hu : usable? hashes slot.dependency.toNat with
    | none => rw [written, hu]
    | some hash =>
      rw [hu] at hi
      exact getElem?_bytes_exchange hx (octets_written hh slot hx) (by rw [hb]; exact hi rfl)
  · rw [fillAt_of_not_fits hc]

theorem octets_fillAt (hh : ∀ hash ∈ hashes, Plain hash) (code : List Char) (slot : HashSlot) :
    octets (fillAt hashes code slot) = octets code := by
  by_cases hc : Fits code slot
  · obtain ⟨x, before, after, rfl, hb, hx, hw⟩ := hc
    rw [fillAt_append hb hx hw]
    simp only [octets_append, hx, octets_written hh slot hx]
  · rw [fillAt_of_not_fits hc]

end Step

section Run

def filled (hashes : List String) (slots : List HashSlot) (code : List Char) : List Char :=
  slots.foldl (fillAt hashes) code

theorem octets_filled (hh : ∀ hash ∈ hashes, Plain hash) (slots : List HashSlot)
    (code : List Char) : octets (filled hashes slots code) = octets code := by
  induction slots generalizing code with
  | nil => rfl
  | cons slot slots ih => exact (ih _).trans (octets_fillAt hh code slot)

theorem Holds.filled (hh : ∀ hash ∈ hashes, Plain hash) (h : Holds code s.offset.toNat inside)
    (ha : ∀ t ∈ slots, Apart s t) : Holds (filled hashes slots code) s.offset.toNat inside := by
  induction slots generalizing code with
  | nil => exact h
  | cons slot slots ih =>
    obtain ⟨hslot, hslots⟩ := List.forall_mem_cons.1 ha
    exact ih (h.fillAt hh hslot) hslots

theorem holds_filled (hh : ∀ hash ∈ hashes, Plain hash) (hp : slots.Pairwise Apart)
    (hs : s ∈ slots) (h : Holds code s.offset.toNat inside) :
    Holds (filled hashes slots code) s.offset.toNat (written hashes s inside) := by
  induction slots generalizing code with
  | nil => cases hs
  | cons slot slots ih =>
    obtain ⟨hslot, hslots⟩ := List.pairwise_cons.1 hp
    rcases List.mem_cons.1 hs with rfl | hs
    · have hrest := (holds_fillAt hh h).filled hh hslot
      exact hrest
    · exact ih hslots hs (h.fillAt hh (hslot s hs).symm)

theorem fits_filled_iff (hh : ∀ hash ∈ hashes, Plain hash)
    (ha : ∀ t ∈ slots, s = t ∨ Apart s t) : Fits (filled hashes slots code) s ↔ Fits code s := by
  induction slots generalizing code with
  | nil => exact Iff.rfl
  | cons slot slots ih =>
    obtain ⟨hslot, hslots⟩ := List.forall_mem_cons.1 ha
    exact (ih hslots).trans ⟨fun h ↦ fits_of_fillAt hh h hslot, fun h ↦ h.fillAt hh hslot⟩

theorem eq_or_apart (hp : slots.Pairwise Apart) (hs : s ∈ slots) (ht : t ∈ slots) :
    s = t ∨ Apart s t :=
  or_iff_not_imp_left.2 fun hne ↦ hp.forall hs ht hne

theorem getElem?_filled (hh : ∀ hash ∈ hashes, Plain hash) (hp : slots.Pairwise Apart)
    (h : ∀ t ∈ slots, Fits code t → (usable? hashes t.dependency.toNat).isSome = true →
      i < t.offset.toNat ∨ t.offset.toNat + prefixLength ≤ i) :
    (bytes (filled hashes slots code))[i]? = (bytes code)[i]? := by
  induction slots generalizing code with
  | nil => rfl
  | cons slot slots ih =>
    obtain ⟨hslot, hslots⟩ := List.pairwise_cons.1 hp
    obtain ⟨hi, his⟩ := List.forall_mem_cons.1 h
    refine (ih hslots fun t ht hf ↦ his t ht ?_).trans (getElem?_fillAt hh hi)
    exact fits_of_fillAt hh hf (.inr (hslot t ht).symm)

/-- Of two texts one is the other if each slot that is filled holds the same in both and all other
octets are equal. -/
theorem eq_of_filled (hashes : List String) (slots : List HashSlot) (code : List Char)
    {a b : List Char}
    (hs : ∀ s ∈ slots, Fits code s → (usable? hashes s.dependency.toNat).isSome = true →
      ∃ inside, Holds a s.offset.toNat inside ∧ Holds b s.offset.toNat inside)
    (hi : ∀ i, (∀ s ∈ slots, Fits code s → (usable? hashes s.dependency.toNat).isSome = true →
      i < s.offset.toNat ∨ s.offset.toNat + prefixLength ≤ i) → (bytes a)[i]? = (bytes b)[i]?) :
    a = b := by
  refine bytes_inj (List.ext_getElem? fun i ↦ ?_)
  by_cases hin : ∀ s ∈ slots, Fits code s → (usable? hashes s.dependency.toNat).isSome = true →
      i < s.offset.toNat ∨ s.offset.toNat + prefixLength ≤ i
  · exact hi i hin
  · simp only [not_forall, not_or, Nat.not_lt, Nat.not_le] at hin
    obtain ⟨s, hm, hf, hu, hl, hr⟩ := hin
    obtain ⟨inside, ha, hb⟩ := hs s hm hf hu
    rw [ha.getElem?_bytes hl hr, hb.getElem?_bytes hl hr]

theorem written_written (hashes : List String) (s : HashSlot) (inside : List Char) :
    written hashes s (written hashes s inside) = written hashes s inside := by
  rw [written, written]
  cases usable? hashes s.dependency.toNat <;> rfl

theorem written_of_isSome (h : (usable? hashes s.dependency.toNat).isSome = true)
    (a b : List Char) : written hashes s a = written hashes s b := by
  rw [written, written]
  cases hu : usable? hashes s.dependency.toNat with
  | none => rw [hu] at h; cases h
  | some hash => rfl

theorem filled_filled (hh : ∀ hash ∈ hashes, Plain hash) (hp : slots.Pairwise Apart)
    (code : List Char) :
    filled hashes slots (filled hashes slots code) = filled hashes slots code := by
  refine eq_of_filled hashes slots code (fun s hs hf hu ↦ ?_)
    fun i hi ↦ ?_
  · obtain ⟨inside, h⟩ := hf
    have hfirst := holds_filled hh hp hs h
    have hsecond := holds_filled hh hp hs hfirst
    rw [written_written] at hsecond
    exact ⟨_, hsecond, hfirst⟩
  · refine getElem?_filled hh hp fun t ht hf ↦ hi t ht ?_
    exact (fits_filled_iff hh fun u hu ↦ eq_or_apart hp ht hu).1 hf

theorem filled_of_filled {old new : List String} (ho : ∀ hash ∈ old, Plain hash)
    (hn : ∀ hash ∈ new, Plain hash) (hp : slots.Pairwise Apart)
    (hk : ∀ s ∈ slots, (usable? old s.dependency.toNat).isSome = true →
      (usable? new s.dependency.toNat).isSome = true) (code : List Char) :
    filled new slots (filled old slots code) = filled new slots code := by
  have hfits : ∀ t ∈ slots, Fits (filled old slots code) t ↔ Fits code t := fun t ht ↦
    fits_filled_iff ho fun u hu ↦ eq_or_apart hp ht hu
  refine eq_of_filled new slots code (fun s hs hf hu ↦ ?_)
    fun i hi ↦ ?_
  · obtain ⟨inside, h⟩ := hf
    refine ⟨_, holds_filled hn hp hs (holds_filled ho hp hs h), ?_⟩
    rw [written_of_isSome hu _ inside]
    exact holds_filled hn hp hs h
  · have hfirst : (bytes (filled old slots code))[i]? = (bytes code)[i]? :=
      getElem?_filled ho hp fun t ht hf hu ↦ hi t ht hf (hk t ht hu)
    have hsecond : (bytes (filled new slots (filled old slots code)))[i]? =
        (bytes (filled old slots code))[i]? :=
      getElem?_filled hn hp fun t ht hf ↦ hi t ht ((hfits t ht).1 hf)
    rw [hsecond, hfirst, getElem?_filled hn hp hi]

theorem fillAt_eq_of_filled_eq (hh : ∀ hash ∈ hashes, Plain hash)
    (hp : (slot :: slots).Pairwise Apart) (h : filled hashes (slot :: slots) code = code) :
    fillAt hashes code slot = code := by
  by_cases hc : Fits code slot
  · obtain ⟨inside, hin⟩ := hc
    have hafter := holds_filled hh hp List.mem_cons_self hin
    rw [h] at hafter
    obtain ⟨before, after, rfl, hb, hi, hw⟩ := hin
    rw [fillAt_append hb hi hw, (Holds.unique ⟨before, after, rfl, hb, hi, hw⟩ hafter).symm]
  · exact fillAt_of_not_fits hc

theorem fillAll_eq (hh : ∀ hash ∈ hashes, Plain hash) (hp : slots.Pairwise Apart) (changed : Bool)
    (code : List Char) : fillAll hashes changed code slots =
      some (changed || decide (filled hashes slots code ≠ code), filled hashes slots code) := by
  induction slots generalizing changed code with
  | nil => simp [fillAll, filled]
  | cons slot slots ih =>
    rw [fillAll, fillOne_eq hh]
    refine (ih (List.pairwise_cons.1 hp).2 _ _).trans ?_
    have hchanged : (fillAt hashes code slot ≠ code ∨
        filled hashes (slot :: slots) code ≠ fillAt hashes code slot) ↔
          filled hashes (slot :: slots) code ≠ code := by
      refine ⟨fun h he ↦ ?_, fun h ↦ ?_⟩
      · have hfirst := fillAt_eq_of_filled_eq hh hp he
        rw [he, hfirst] at h
        exact h.elim (fun h ↦ h rfl) fun h ↦ h rfl
      · by_contra hn
        rw [not_or, not_not, not_not] at hn
        exact h (hn.2.trans hn.1)
    change some ((changed || decide (fillAt hashes code slot ≠ code)) ||
      decide (filled hashes (slot :: slots) code ≠ fillAt hashes code slot),
        filled hashes (slot :: slots) code) = _
    rw [Bool.or_assoc, ← Bool.decide_or]
    simp only [hchanged]

end Run

section Texts

variable {code : String}

theorem fill_eq (hh : ∀ hash ∈ hashes, Plain hash) (hp : slots.Pairwise Apart) (code : String) :
    fill code slots hashes = some (decide (filled hashes slots code.toList ≠ code.toList),
      .ofList (filled hashes slots code.toList)) := by
  rw [fill, fillAll_eq hh hp, Bool.false_or]
  rfl

theorem valid_iff {slots : List HashSlot} : valid code slots = true ↔
    ∀ s ∈ slots, ∃ inside, Holds code.toList s.offset.toNat inside ∧
      inside.all Char.isAlphanum = true := by
  rw [valid, List.all_eq_true]
  refine forall₂_congr fun s _ ↦ ?_
  cases hc : cut? code.toList s with
  | none =>
    refine iff_of_false Bool.false_ne_true ?_
    rintro ⟨inside, ⟨before, after, h⟩, -⟩
    rw [cut?_eq_some.2 h] at hc
    cases hc
  | some parts =>
    obtain ⟨before, inside, after⟩ := parts
    have hin : Holds code.toList s.offset.toNat inside := ⟨before, after, cut?_eq_some.1 hc⟩
    refine ⟨fun h ↦ ⟨inside, hin, h⟩, ?_⟩
    rintro ⟨inside', hin', h⟩
    rw [hin.unique hin']
    exact h

end Texts

section Validity

variable {a b : List Char} {changed changed' : Bool}

/-- A character is as wide as another one, and a letter or a digit if that is one. -/
def Stands (c d : Char) : Prop :=
  c.utf8Size = d.utf8Size ∧ (d.isAlphanum = true → c.isAlphanum = true)

theorem stands_refl (cs : List Char) : List.Forall₂ Stands cs cs :=
  List.forall₂_same.2 fun _ _ ↦ ⟨rfl, id⟩

theorem octets_of_stands (h : List.Forall₂ Stands b a) : octets b = octets a := by
  induction h with
  | nil => rfl
  | cons hc _ ih => rw [octets_cons, octets_cons, hc.1, ih]

theorem Holds.stands (h : Holds a offset inside) (hin : inside.all Char.isAlphanum = true)
    (hs : List.Forall₂ Stands b a) :
    ∃ inside', Holds b offset inside' ∧ inside'.all Char.isAlphanum = true := by
  obtain ⟨before, after, rfl, hb, hi, hw⟩ := h
  rw [List.append_assoc] at hs
  have hhead := List.forall₂_take_append _ _ _ hs
  have hrest := List.forall₂_drop_append _ _ _ hs
  have hinside := List.forall₂_take_append _ _ _ hrest
  refine ⟨_, ⟨_, (b.drop before.length).drop inside.length, ?_, (octets_of_stands hhead).trans hb,
    (octets_of_stands hinside).trans hi, hw⟩, ?_⟩
  · rw [List.append_assoc, List.take_append_drop, List.take_append_drop]
  · rw [List.all_eq_true] at hin ⊢
    intro c hc
    obtain ⟨i, hi, rfl⟩ := List.getElem_of_mem hc
    have hi' : i < inside.length := hinside.length_eq ▸ hi
    exact (hinside.get hi hi').2 (hin _ (List.getElem_mem hi'))

/-- Filling a slot that holds letters and digits leaves the other characters, and every slot, in their
places. -/
theorem stands_fillOne (hh : ∀ hash ∈ hashes, IsHash hash)
    (hin : ∀ inside, Holds code slot.offset.toNat inside → inside.all Char.isAlphanum = true)
    (h : fillOne hashes code slot = some (changed, code')) : List.Forall₂ Stands code' code := by
  rw [fillOne] at h
  split at h
  · rw [← (Prod.mk.inj (Option.some_inj.1 h)).2]
    exact stands_refl code
  · next hash hu =>
    obtain ⟨⟨start, rest⟩, hs, h⟩ := Option.bind_eq_some_iff.1 h
    dsimp only at h
    split at h
    · rw [← (Prod.mk.inj (Option.some_inj.1 h)).2]
      exact stands_refl code
    · next before inside after hcut =>
      split at h
      · rw [← (Prod.mk.inj (Option.some_inj.1 h)).2]
        exact stands_refl code
      · obtain ⟨-, rfl⟩ := Prod.mk.inj (Option.some_inj.1 h)
        obtain ⟨rfl, hb, hi, hw⟩ := cut?_eq_some.1 hcut
        have hold : ∀ c ∈ inside, c.isAlphanum = true :=
          List.all_eq_true.1 (hin inside ⟨before, after, rfl, hb, hi, hw⟩)
        have hwide : ∀ c ∈ inside, c.utf8Size = 1 := fun c hc ↦
          Compiled.utf8Size_of_isPlain (by simp [Script.Points.isPlain, hold c hc])
        have hnew : ∀ c ∈ start, c.utf8Size = 1 ∧ c.isAlphanum = true := by
          obtain ⟨hm, hlong⟩ := usable?_eq_some.1 hu
          rcases hh hash (List.mem_of_getElem? hm) with rfl | ⟨text, rfl⟩
          · exact absurd hlong (by decide)
          · intro c hc
            have hmem : c ∈ (contentHash text).toList := by
              rw [(splitAtOctet_eq_some.1 hs).1]
              exact List.mem_append_left _ hc
            exact ascii_contentHash hmem
        have hlength : start.length = inside.length := by
          rw [← octets_of_ascii fun c hc ↦ (hnew c hc).1, ← octets_of_ascii hwide, hi]
          exact (splitAtOctet_eq_some.1 hs).2
        refine List.rel_append (List.rel_append (stands_refl before) ?_) (stands_refl after)
        refine List.forall₂_iff_get.2 ⟨hlength, fun i h₁ h₂ ↦ ?_⟩
        obtain ⟨hsize, halnum⟩ := hnew _ (List.getElem_mem h₁)
        exact ⟨hsize.trans (hwide _ (List.getElem_mem h₂)).symm, fun _ ↦ halnum⟩

theorem valid_fillAll {part : List HashSlot} (hh : ∀ hash ∈ hashes, IsHash hash)
    (hsub : ∀ s ∈ part, s ∈ slots)
    (hv : ∀ s ∈ slots, ∃ inside, Holds code s.offset.toNat inside ∧ inside.all Char.isAlphanum = true)
    (h : fillAll hashes changed code part = some (changed', code')) :
    ∀ s ∈ slots, ∃ inside, Holds code' s.offset.toNat inside ∧ inside.all Char.isAlphanum = true := by
  induction part generalizing changed code with
  | nil =>
    rw [fillAll] at h
    rw [← (Prod.mk.inj (Option.some_inj.1 h)).2]
    exact hv
  | cons slot rest ih =>
    rw [fillAll] at h
    obtain ⟨⟨now, code₁⟩, h₁, h₂⟩ := Option.bind_eq_some_iff.1 h
    have hstands := stands_fillOne hh (fun inside hin ↦ ?_) h₁
    · refine ih (fun s hs ↦ hsub s (List.mem_cons_of_mem slot hs)) (fun s hs ↦ ?_) h₂
      obtain ⟨inside, hin, hall⟩ := hv s hs
      exact hin.stands hall hstands
    · obtain ⟨inside', hin', hall⟩ := hv slot (hsub slot List.mem_cons_self)
      rwa [hin.unique hin']

/-- Slots stay valid when hashes are filled in, overlapping ones as well. -/
theorem valid_fill {code code' : String} (hh : ∀ hash ∈ hashes, IsHash hash)
    (hv : valid code slots = true) (h : fill code slots hashes = some (changed, code')) :
    valid code' slots = true := by
  obtain ⟨⟨now, cs⟩, hall, he⟩ := Option.map_eq_some_iff.1 h
  obtain ⟨-, rfl⟩ := Prod.mk.inj he
  rw [valid_iff] at hv ⊢
  rw [String.toList_ofList]
  exact valid_fillAll hh (fun _ hs ↦ hs) hv hall

theorem Linked.valid {code : String} (h : Linked code hashes slots)
    (hh : ∀ hash ∈ hashes, IsHash hash) : HashSlot.valid code slots = true := by
  rw [valid_iff]
  intro s hs
  obtain ⟨hash, hhash, hin⟩ := h.filled s hs
  refine ⟨_, hin, List.all_eq_true.2 fun c hc ↦ ?_⟩
  rw [filling] at hc
  rcases hh hash (List.mem_of_getElem? hhash) with rfl | ⟨text, rfl⟩
  · rw [List.eq_of_mem_replicate hc]
    rfl
  · rw [if_neg (contentHash_ne_empty text)] at hc
    exact (ascii_contentHash (mem_of_mem_hashPrefix hc)).2

end Validity

section Filled

variable {code : String}

/-- A hash of the slot's dependency that is long enough for the slot. -/
def Supplies (hashes : List String) (s : HashSlot) (hash : String) : Prop :=
  hashes[s.dependency.toNat]? = some hash ∧ prefixLength ≤ hash.utf8ByteSize

/-- What filling comes to: nine octets in each slot that has a place and a hash, nothing else. -/
structure Filled (hashes : List String) (slots : List HashSlot) (code code' : String)
    (changed : Bool) : Prop where
  size : code'.utf8ByteSize = code.utf8ByteSize
  outside : ∀ i, (∀ s ∈ slots, i < s.offset.toNat ∨ s.offset.toNat + prefixLength ≤ i) →
    octet? code' i = octet? code i
  hashed : ∀ s ∈ slots, ∀ hash, Fits code.toList s → Supplies hashes s hash →
    Holds code'.toList s.offset.toNat (hash.toList.take prefixLength)
  kept : ∀ s ∈ slots, ¬ (Fits code.toList s ∧ ∃ hash, Supplies hashes s hash) →
    ∀ i, s.offset.toNat ≤ i → i < s.offset.toNat + prefixLength → octet? code' i = octet? code i
  changed_iff : changed = true ↔ code' ≠ code
  valid : valid code slots = true → HashSlot.valid code' slots = true

theorem filled_fill (hh : ∀ hash ∈ hashes, Plain hash) (hp : slots.Pairwise Apart) (code : String) :
    Filled hashes slots code (.ofList (filled hashes slots code.toList))
      (decide (filled hashes slots code.toList ≠ code.toList)) where
  size := by
    rw [utf8ByteSize_eq_octets, utf8ByteSize_eq_octets, String.toList_ofList, octets_filled hh]
  outside i hi := by
    rw [octet?_ofList, octet?_eq, getElem?_filled hh hp fun t ht _ _ ↦ hi t ht]
  hashed s hs hash hf hsupply := by
    obtain ⟨inside, h⟩ := hf
    have hafter := holds_filled hh hp hs h
    rw [written, usable?_eq_some.2 hsupply] at hafter
    rw [String.toList_ofList]
    exact hafter
  kept s hs hn i hl hr := by
    rw [octet?_ofList, octet?_eq, getElem?_filled hh hp fun t ht hf hu ↦ ?_]
    -- the slot that is filled is another one, and lies apart
    rcases eq_or_apart hp hs ht with rfl | ha | ha
    · obtain ⟨hash, hhash⟩ := Option.isSome_iff_exists.1 hu
      exact (hn ⟨hf, hash, usable?_eq_some.1 hhash⟩).elim
    · exact .inl (by omega)
    · exact .inr (by omega)
  changed_iff := by
    rw [decide_eq_true_eq, ne_eq, ne_eq, ← String.toList_inj, String.toList_ofList]
  valid h := by
    rw [valid_iff] at h ⊢
    intro s hs
    obtain ⟨inside, hin, hall⟩ := h s hs
    rw [String.toList_ofList]
    refine ⟨_, holds_filled hh hp hs hin, ?_⟩
    rw [written]
    cases hu : usable? hashes s.dependency.toNat with
    | none => exact hall
    | some hash =>
      obtain ⟨hm, hl⟩ := usable?_eq_some.1 hu
      exact List.all_eq_true.2 (hh hash (List.mem_of_getElem? hm) hl)

/-- Slots that lie apart are filled with the hashes that are long enough, and all else in the code
stays. Filling them once more changes nothing, and hashes that are filled in later replace those from
before wherever they are given. -/
theorem fill_fill {old new : List String} (hp : slots.Pairwise Apart)
    (ho : ∀ hash ∈ old, Plain hash) (hn : ∀ hash ∈ new, Plain hash) (code : String) :
    ∃ changed code', fill code slots old = some (changed, code') ∧
      Filled old slots code code' changed ∧ fill code' slots old = some (false, code') ∧
      ((∀ s hash, Supplies old s hash → ∃ hash', Supplies new s hash') →
        ∃ a b last, fill code' slots new = some (a, last) ∧ fill code slots new = some (b, last)) := by
  refine ⟨_, _, fill_eq ho hp code, filled_fill ho hp code, ?_, fun hk ↦ ?_⟩
  · rw [fill_eq ho hp, String.toList_ofList, filled_filled ho hp]
    simp
  · have hlater : ∀ s ∈ slots, (usable? old s.dependency.toNat).isSome = true →
        (usable? new s.dependency.toNat).isSome = true := by
      intro s _ hu
      obtain ⟨hash, hhash⟩ := Option.isSome_iff_exists.1 hu
      obtain ⟨hash', h'⟩ := hk s hash (usable?_eq_some.1 hhash)
      exact Option.isSome_iff_exists.2 ⟨hash', usable?_eq_some.2 h'⟩
    have hlast := fill_eq hn hp (.ofList (filled old slots code.toList))
    rw [String.toList_ofList, filled_of_filled ho hn hp hlater] at hlast
    exact ⟨_, _, _, hlast, fill_eq hn hp code⟩

/-- A slot behind a character of two octets, one in which the code ends, and one whose end is behind
the last word. -/
def wideSlots : List HashSlot :=
  [⟨0, 2⟩, ⟨1, 11⟩, ⟨0, 0xffffffffffffffff⟩]

theorem fill_fill_wideSlots : wideSlots.Pairwise Apart ∧
    (∀ hash ∈ ["aaaaaaaaaé", "é"], Plain hash) ∧ (∀ hash ∈ ["bbbbbbbbb"], Plain hash) ∧
      ∃ changed code', fill "é000000000x" wideSlots ["aaaaaaaaaé", "é"] = some (changed, code') ∧
        fill code' wideSlots ["aaaaaaaaaé", "é"] = some (false, code') ∧
        ∃ a b last, fill code' wideSlots ["bbbbbbbbb"] = some (a, last) ∧
          fill "é000000000x" wideSlots ["bbbbbbbbb"] = some (b, last) := by
  have hp : wideSlots.Pairwise Apart := by
    refine List.pairwise_cons.2 ⟨?_, List.pairwise_cons.2 ⟨?_, List.pairwise_singleton _ _⟩⟩
    · exact List.forall_mem_cons.2
        ⟨.inl (by decide), List.forall_mem_singleton.2 (.inl (by decide +kernel))⟩
    · exact List.forall_mem_singleton.2 (.inl (by decide +kernel))
  have ho : ∀ hash ∈ ["aaaaaaaaaé", "é"], Plain hash :=
    List.forall_mem_cons.2 ⟨fun _ ↦ List.all_eq_true.1 (by decide),
      List.forall_mem_singleton.2 fun h ↦ absurd h (by decide)⟩
  have hn : ∀ hash ∈ ["bbbbbbbbb"], Plain hash :=
    List.forall_mem_singleton.2 fun _ ↦ List.all_eq_true.1 (by decide)
  have hk : ∀ s hash, Supplies ["aaaaaaaaaé", "é"] s hash →
      ∃ hash', Supplies ["bbbbbbbbb"] s hash' := by
    rintro s hash ⟨hget, hlong⟩
    -- only the first of the old hashes is long enough
    have hfirst : s.dependency.toNat = 0 := by
      match hd : s.dependency.toNat with
      | 0 => rfl
      | 1 =>
        rw [hd] at hget
        obtain rfl : "é" = hash := Option.some_inj.1 hget
        exact absurd hlong (by decide)
      | n + 2 =>
        rw [hd] at hget
        cases hget
    exact ⟨"bbbbbbbbb", by rw [hfirst]; rfl, by decide⟩
  obtain ⟨changed, code', h, -, hagain, hlast⟩ := fill_fill hp ho hn "é000000000x"
  exact ⟨hp, ho, hn, changed, code', h, hagain, hlast hk⟩

end Filled

end SiteCompiler.HashSlot
