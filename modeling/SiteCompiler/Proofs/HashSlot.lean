import SiteCompiler.HashSlot
import SiteCompiler.Proofs.Digest

namespace SiteCompiler.HashSlot

open Digest

/-- The code holds nine octets of text at an octet, and their end is a word. -/
def Holds (code : List Char) (offset : Nat) (inside : List Char) : Prop :=
  ∃ before after, code = before ++ inside ++ after ∧ octets before = offset ∧
    octets inside = prefixLength ∧ offset + prefixLength < UInt64.size

def Apart (s t : HashSlot) : Prop :=
  s.offset.toNat + prefixLength ≤ t.offset.toNat ∨ t.offset.toNat + prefixLength ≤ s.offset.toNat

instance : Std.Symm Apart :=
  ⟨fun _ _ ↦ Or.symm⟩

def filling (hash : String) : List Char :=
  if hash = "" then List.replicate prefixLength '0' else (hashPrefix hash).toList

theorem toNat_stop (slot : HashSlot) :
    slot.stop.toNat = (slot.offset.toNat + prefixLength) % UInt64.size := by
  rw [stop, UInt64.toNat_add]
  rfl

theorem offset_le_stop_iff {slot : HashSlot} :
    slot.offset ≤ slot.stop ↔ slot.offset.toNat + prefixLength < UInt64.size := by
  rw [UInt64.le_iff_toNat_le, toNat_stop]
  have hlt := slot.offset.toNat_lt_size
  constructor
  · intro h
    by_contra hle
    -- the sum has gone around once
    rw [Nat.mod_eq_sub_mod (Nat.le_of_not_lt hle), Nat.mod_eq_of_lt] at h
    all_goals simp only [prefixLength, UInt64.size] at *; omega
  · intro h
    rw [Nat.mod_eq_of_lt h]
    exact Nat.le_add_right _ _

theorem toNat_stop_sub_offset {slot : HashSlot}
    (h : slot.offset.toNat + prefixLength < UInt64.size) :
    (slot.stop - slot.offset).toNat = prefixLength := by
  rw [UInt64.toNat_sub_of_le _ _ (offset_le_stop_iff.2 h), toNat_stop, Nat.mod_eq_of_lt h,
    Nat.add_sub_cancel_left]

theorem cut?_eq_some {code before inside after : List Char} {slot : HashSlot} :
    cut? code slot = some (before, inside, after) ↔
      code = before ++ inside ++ after ∧ octets before = slot.offset.toNat ∧
        octets inside = prefixLength ∧ slot.offset.toNat + prefixLength < UInt64.size := by
  rw [cut?]
  by_cases hw : slot.offset.toNat + prefixLength < UInt64.size
  · rw [guard, if_pos (offset_le_stop_iff.2 hw), toNat_stop_sub_offset hw]
    simp only [Option.pure_def, Option.bind_eq_bind, Option.bind_some, Option.bind_eq_some_iff,
      Prod.exists, splitAtOctet_eq_some]
    constructor
    · rintro ⟨b, rest, ⟨rfl, hb⟩, i, a, ⟨rfl, hi⟩, h⟩
      cases h
      exact ⟨by rw [List.append_assoc], hb, hi, hw⟩
    · rintro ⟨rfl, hb, hi, -⟩
      exact ⟨before, inside ++ after, ⟨by rw [List.append_assoc], hb⟩, inside, after, ⟨rfl, hi⟩, rfl⟩
  · rw [guard, if_neg (mt offset_le_stop_iff.1 hw)]
    exact iff_of_false (fun h ↦ by cases h) fun h ↦ hw h.2.2.2

theorem Holds.unique {code a b : List Char} {offset : Nat} (ha : Holds code offset a)
    (hb : Holds code offset b) : a = b := by
  obtain ⟨p, q, rfl, hp, hi, -⟩ := ha
  obtain ⟨p', q', h, hp', hi', -⟩ := hb
  rw [List.append_assoc, List.append_assoc] at h
  have hrest := (eq_of_octets h (hp.trans hp'.symm)).2
  exact (eq_of_octets hrest (hi.trans hi'.symm)).1

theorem Holds.replace {before inside after new kept : List Char} {offset : Nat}
    (hi : octets inside = prefixLength) (hn : octets new = prefixLength)
    (h : Holds (before ++ inside ++ after) offset kept)
    (ha : octets before + prefixLength ≤ offset ∨ offset + prefixLength ≤ octets before) :
    Holds (before ++ new ++ after) offset kept := by
  obtain ⟨p, q, he, hp, hk, hw⟩ := h
  rcases ha with ha | ha
  · rw [List.append_assoc] at he
    rw [List.append_assoc p] at he
    obtain ⟨e, rfl, h⟩ := exists_of_octets_le
      (show (before ++ inside) ++ after = p ++ (kept ++ q) by rw [← he, List.append_assoc])
      (by rw [octets_append, hi, hp]; exact ha)
    refine ⟨before ++ new ++ e, q, by rw [h]; simp only [List.append_assoc], ?_, hk, hw⟩
    rw [← hp]
    simp only [octets_append, hi, hn]
  · obtain ⟨e, rfl, h⟩ := exists_of_octets_le
      (show (p ++ kept) ++ q = before ++ (inside ++ after) by rw [← he, List.append_assoc])
      (by rw [octets_append, hk, hp]; exact ha)
    exact ⟨p, e ++ new ++ after, by simp only [List.append_assoc], hp, hk, hw⟩

theorem usable?_of_isHash {hashes : List String} {dependency : Nat} {hash : String}
    (hh : hashes[dependency]? = some hash) (hi : IsHash hash) :
    usable? hashes dependency = if hash = "" then none else some hash := by
  rw [usable?, hh]
  rcases hi with rfl | ⟨text, rfl⟩
  · rfl
  · have hl : prefixLength ≤ (contentHash text).utf8ByteSize := by
      rw [utf8ByteSize_eq_octets, octets_of_ascii fun c hc ↦ (ascii_contentHash hc).1,
        length_contentHash]
      decide
    rw [if_neg (contentHash_ne_empty text), Option.filter_some, if_pos (by simpa using hl)]

/-- What is in a slot after a hash has been written into it. -/
def after (hash : String) (inside : List Char) : List Char :=
  if hash = "" then inside else filling hash

theorem octets_filling {hash : String} (hi : IsHash hash) : octets (filling hash) = prefixLength := by
  rw [filling]
  rcases hi with rfl | ⟨text, rfl⟩
  · rfl
  · rw [if_neg (contentHash_ne_empty text), octets_hashPrefix_contentHash]

theorem after_filling {old new : String} (h : new = "" → old = "") :
    after new (filling old) = filling new := by
  rw [after]
  split
  · next hn => rw [h hn, hn]
  · rfl

theorem fillOne_of_isHash {hashes : List String} {code inside : List Char} {slot : HashSlot}
    {hash : String} (hh : hashes[slot.dependency.toNat]? = some hash) (hi : IsHash hash)
    (hc : Holds code slot.offset.toNat inside) :
    ∃ changed code', fillOne hashes code slot = some (changed, code') ∧
      (changed = false → code' = code) ∧ Holds code' slot.offset.toNat (after hash inside) ∧
      ∀ offset kept, slot.offset.toNat + prefixLength ≤ offset ∨
        offset + prefixLength ≤ slot.offset.toNat → Holds code offset kept →
          Holds code' offset kept := by
  rw [fillOne, usable?_of_isHash hh hi]
  rcases hi with rfl | ⟨text, rfl⟩
  · exact ⟨false, code, rfl, fun _ ↦ rfl, hc, fun _ _ _ h ↦ h⟩
  · have hne := contentHash_ne_empty text
    have hf : filling (contentHash text) = (contentHash text).toList.take 9 := by
      rw [filling, if_neg hne, hashPrefix_contentHash]
    have ho := octets_filling (.inr ⟨text, rfl⟩)
    rw [after, if_neg hne, if_neg hne]
    simp only [splitAtOctet_contentHash, Option.bind_eq_bind, Option.bind_some]
    obtain ⟨before, rest, rfl, hb, hin, hw⟩ := hc
    rw [cut?_eq_some.2 ⟨rfl, hb, hin, hw⟩, ← hf]
    by_cases he : inside = filling (contentHash text)
    · refine ⟨false, _, if_pos he, fun _ ↦ rfl, ?_, fun _ _ _ h ↦ h⟩
      rw [← he]
      exact ⟨before, rest, rfl, hb, hin, hw⟩
    · refine ⟨true, _, if_neg he, fun h ↦ absurd h (by decide), ⟨before, rest, rfl, hb, ho, hw⟩, ?_⟩
      intro offset kept ha hk
      rw [← hb] at ha
      exact hk.replace hin ho ha

/-- Each slot takes the start of its hash, if there is one; what lies apart from all slots stays. -/
theorem fillAll_of_isHash {hashes : List String} {slots : List HashSlot} {code : List Char}
    {old : HashSlot → List Char} (changed : Bool) (hp : slots.Pairwise Apart)
    (hh : ∀ s ∈ slots, ∃ hash, hashes[s.dependency.toNat]? = some hash ∧ IsHash hash)
    (hc : ∀ s ∈ slots, Holds code s.offset.toNat (old s)) :
    ∃ changed' code', fillAll hashes changed code slots = some (changed', code') ∧
      (changed' = false → code' = code ∧ changed = false) ∧
      (∀ s ∈ slots, ∀ hash, hashes[s.dependency.toNat]? = some hash →
        Holds code' s.offset.toNat (after hash (old s))) ∧
      ∀ offset kept, (∀ s ∈ slots, s.offset.toNat + prefixLength ≤ offset ∨
        offset + prefixLength ≤ s.offset.toNat) → Holds code offset kept →
          Holds code' offset kept := by
  induction slots generalizing changed code with
  | nil =>
    exact ⟨changed, code, rfl, fun h ↦ ⟨rfl, h⟩, fun s hs ↦ absurd hs List.not_mem_nil,
      fun _ _ _ h ↦ h⟩
  | cons slot rest ih =>
    obtain ⟨ha, hp⟩ := List.pairwise_cons.1 hp
    obtain ⟨hash, hash_at, hi⟩ := hh slot List.mem_cons_self
    obtain ⟨now, code₁, h₁, hsame, hslot, hframe⟩ :=
      fillOne_of_isHash hash_at hi (hc slot List.mem_cons_self)
    have hc₁ : ∀ s ∈ rest, Holds code₁ s.offset.toNat (old s) := fun s hs ↦
      hframe _ _ (ha s hs) (hc s (List.mem_cons_of_mem slot hs))
    obtain ⟨changed', code', h', hsame', hrest, hframe'⟩ :=
      ih (changed || now) hp (fun s hs ↦ hh s (List.mem_cons_of_mem slot hs)) hc₁
    refine ⟨changed', code', ?_, ?_, ?_, ?_⟩
    · rw [fillAll, h₁]
      exact h'
    · intro hn
      obtain ⟨rfl, hor⟩ := hsame' hn
      obtain ⟨hchanged, hnow⟩ := Bool.or_eq_false_iff.1 hor
      exact ⟨hsame hnow, hchanged⟩
    · intro s hs hash' hash_at'
      rcases List.mem_cons.1 hs with rfl | hs
      · obtain rfl := Option.some_inj.1 (hash_at.symm.trans hash_at')
        exact hframe' _ _ (fun t ht ↦ (ha t ht).symm) hslot
      · exact hrest s hs hash' hash_at'
    · intro offset kept hall hk
      exact hframe' offset kept (fun s hs ↦ hall s (List.mem_cons_of_mem slot hs))
        (hframe offset kept (hall slot List.mem_cons_self) hk)

/-- The slots of a code lie apart, and each holds the start of the hash of its dependency, or zeros
while that is not known. -/
structure Linked (code : String) (hashes : List String) (slots : List HashSlot) : Prop where
  apart : slots.Pairwise Apart
  filled : ∀ s ∈ slots, ∃ hash, hashes[s.dependency.toNat]? = some hash ∧
    Holds code.toList s.offset.toNat (filling hash)

theorem Linked.fill {code : String} {old new : List String} {slots : List HashSlot}
    (h : Linked code old slots) (hl : old.length = new.length) (hi : ∀ hash ∈ new, IsHash hash)
    (hk : ∀ i : Nat, new[i]? = some "" → old[i]? = some "") :
    ∃ changed code', HashSlot.fill code slots new = some (changed, code') ∧
      (changed = false → code' = code) ∧ Linked code' new slots := by
  have hh : ∀ s ∈ slots, ∃ hash, new[s.dependency.toNat]? = some hash ∧ IsHash hash := by
    intro s hs
    obtain ⟨_, hs, -⟩ := h.filled s hs
    have hlt : s.dependency.toNat < new.length := by
      rw [← hl]
      exact (List.getElem?_eq_some_iff.1 hs).1
    exact ⟨_, List.getElem?_eq_getElem hlt, hi _ (List.getElem_mem hlt)⟩
  have hc : ∀ s ∈ slots,
      Holds code.toList s.offset.toNat (filling ((old[s.dependency.toNat]?).getD "")) := by
    intro s hs
    obtain ⟨hash, hs, hc⟩ := h.filled s hs
    rwa [hs]
  obtain ⟨changed, code', he, hsame, hslots, -⟩ := fillAll_of_isHash false h.apart hh hc
  refine ⟨changed, .ofList code', by rw [HashSlot.fill, he]; rfl, ?_, h.apart, ?_⟩
  · intro hn
    rw [(hsame hn).1, String.ofList_toList]
  · intro s hs
    obtain ⟨hash, hnew, -⟩ := hh s hs
    refine ⟨hash, hnew, ?_⟩
    have ha := hslots s hs hash hnew
    obtain ⟨hash', hold, -⟩ := h.filled s hs
    rw [hold, Option.getD_some] at ha
    rw [String.toList_ofList, ← after_filling fun hn ↦ ?_]
    · exact ha
    · subst hn
      exact Option.some_inj.1 (hold.symm.trans (hk _ hnew))

def blankOne (code : List Char) (slot : HashSlot) : List Char :=
  match cut? code slot with
  | some (before, _, after) => before ++ filling "" ++ after
  | none => code

def blank (slots : List HashSlot) (code : List Char) : List Char :=
  slots.foldl blankOne code

theorem blankOne_append {p x q : List Char} {slot : HashSlot}
    (hp : octets p = slot.offset.toNat) (hx : octets x = prefixLength)
    (hw : slot.offset.toNat + prefixLength < UInt64.size) :
    blankOne (p ++ x ++ q) slot = p ++ filling "" ++ q := by
  rw [blankOne, cut?_eq_some.2 ⟨rfl, hp, hx, hw⟩]

theorem exists_blankOne {before inside new after : List Char} {slot : HashSlot}
    (hi : octets inside = prefixLength) (hn : octets new = prefixLength)
    (hc : ∃ x, Holds (before ++ inside ++ after) slot.offset.toNat x)
    (ha : slot.offset.toNat + prefixLength ≤ octets before ∨
      octets before + prefixLength ≤ slot.offset.toNat) :
    ∃ before' after', octets before' = octets before ∧
      blankOne (before ++ inside ++ after) slot = before' ++ inside ++ after' ∧
      blankOne (before ++ new ++ after) slot = before' ++ new ++ after' := by
  obtain ⟨x, p, q, he, hp, hx, hw⟩ := hc
  rcases ha with ha | ha
  · obtain ⟨e, rfl, h⟩ := exists_of_octets_le
      (show (p ++ x) ++ q = before ++ (inside ++ after) by rw [← he, List.append_assoc])
      (by rw [octets_append, hx, hp]; exact ha)
    have hblank : ∀ y, blankOne (p ++ x ++ e ++ y ++ after) slot =
        p ++ filling "" ++ e ++ y ++ after := by
      intro y
      have := blankOne_append (q := e ++ y ++ after) hp hx hw
      simpa only [List.append_assoc] using this
    refine ⟨p ++ filling "" ++ e, after, ?_, hblank inside, hblank new⟩
    simp only [octets_append, hx, octets_filling (.inl rfl)]
  · rw [List.append_assoc p] at he
    obtain ⟨e, rfl, h⟩ := exists_of_octets_le he
      (by rw [octets_append, hi, hp]; exact ha)
    have hblank : ∀ y, octets y = prefixLength →
        blankOne (before ++ y ++ after) slot = before ++ y ++ (e ++ filling "" ++ q) := by
      intro y hy
      have hb : octets (before ++ y ++ e) = slot.offset.toNat := by
        rw [← hp]
        simp only [octets_append, hi, hy]
      have := blankOne_append (q := q) hb hx hw
      rw [h]
      simpa only [List.append_assoc] using this
    exact ⟨before, e ++ filling "" ++ q, rfl, hblank inside hi, hblank new hn⟩

theorem holds_blankOne {code : List Char} {slot : HashSlot} {offset : Nat} {kept : List Char}
    (hc : ∃ x, Holds code slot.offset.toNat x) (h : Holds code offset kept)
    (ha : slot.offset.toNat + prefixLength ≤ offset ∨
      offset + prefixLength ≤ slot.offset.toNat) : Holds (blankOne code slot) offset kept := by
  obtain ⟨x, p, q, rfl, hp, hx, hw⟩ := hc
  rw [blankOne_append hp hx hw]
  exact h.replace hx (octets_filling (.inl rfl)) (hp ▸ ha)

theorem blank_replace {slots : List HashSlot} {before inside new after : List Char} {slot : HashSlot}
    (hp : slots.Pairwise Apart) (hs : slot ∈ slots)
    (hc : ∀ s ∈ slots, ∃ x, Holds (before ++ inside ++ after) s.offset.toNat x)
    (hb : octets before = slot.offset.toNat) (hi : octets inside = prefixLength)
    (hn : octets new = prefixLength) :
    blank slots (before ++ new ++ after) = blank slots (before ++ inside ++ after) := by
  induction slots generalizing before after with
  | nil => cases hs
  | cons t rest ih =>
    obtain ⟨ha, hp⟩ := List.pairwise_cons.1 hp
    rw [blank, blank, List.foldl_cons, List.foldl_cons]
    rcases List.mem_cons.1 hs with rfl | hs
    · obtain ⟨-, -, -, -, -, -, hw⟩ := hc slot List.mem_cons_self
      rw [blankOne_append hb hi hw, blankOne_append hb hn hw]
    · have ht := hc t List.mem_cons_self
      obtain ⟨before', after', hb', hold, hnew⟩ :=
        exists_blankOne hi hn ht (by rw [hb]; exact ha slot hs)
      rw [hold, hnew]
      refine ih hp hs (fun s hm ↦ ?_) (hb'.trans hb)
      obtain ⟨x, hx⟩ := hc s (List.mem_cons_of_mem t hm)
      rw [← hold]
      exact ⟨x, holds_blankOne ht hx (ha s hm)⟩

/-- Two codes with the same slots, the same in them and the same once they are blanked. -/
theorem eq_of_blank_eq {slots : List HashSlot} {a b : List Char} {inside : HashSlot → List Char}
    (hp : slots.Pairwise Apart) (ha : ∀ s ∈ slots, Holds a s.offset.toNat (inside s))
    (hb : ∀ s ∈ slots, Holds b s.offset.toNat (inside s)) (h : blank slots a = blank slots b) : a = b := by
  induction slots generalizing a b with
  | nil => exact h
  | cons t rest ih =>
    obtain ⟨hapart, hp⟩ := List.pairwise_cons.1 hp
    have hta := ha t List.mem_cons_self
    have htb := hb t List.mem_cons_self
    have he : blankOne a t = blankOne b t := by
      refine ih hp (fun s hs ↦ ?_) (fun s hs ↦ ?_) h
      · exact holds_blankOne ⟨_, hta⟩ (ha s (List.mem_cons_of_mem t hs)) (hapart s hs)
      · exact holds_blankOne ⟨_, htb⟩ (hb s (List.mem_cons_of_mem t hs)) (hapart s hs)
    obtain ⟨p, q, rfl, hpo, hi, hw⟩ := hta
    obtain ⟨p', q', rfl, hpo', -⟩ := htb
    rw [blankOne_append hpo hi hw, blankOne_append hpo' hi hw, List.append_assoc, List.append_assoc] at he
    obtain ⟨rfl, hrest⟩ := eq_of_octets he (hpo.trans hpo'.symm)
    rw [List.append_cancel_left hrest]

theorem fillOne_eq_none {hashes : List String} {code : List Char} {slot : HashSlot} :
    fillOne hashes code slot = none ↔
      ∃ hash, hashes[slot.dependency.toNat]? = some hash ∧ ¬Cuttable hash := by
  rw [fillOne]
  cases hu : usable? hashes slot.dependency.toNat with
  | none =>
    rw [usable?, Option.filter_eq_none_iff] at hu
    refine iff_of_false (fun h ↦ by cases h) ?_
    rintro ⟨hash, hget, hbad⟩
    exact hbad fun hlong ↦ absurd (decide_eq_true hlong) (hu hash hget)
  | some hash =>
    obtain ⟨hget, hlong⟩ := Option.filter_eq_some_iff.1 hu
    have hlong := of_decide_eq_true hlong
    dsimp only
    cases hs : splitAtOctet prefixLength hash.toList with
    | none =>
      refine iff_of_true rfl ⟨hash, hget, fun hc ↦ ?_⟩
      have hsome := hc hlong
      rw [hs] at hsome
      cases hsome
    | some parts =>
      rw [Option.bind_eq_bind, Option.bind_some]
      refine iff_of_false (fun h ↦ ?_) ?_
      · split at h
        · cases h
        · split at h <;> cases h
      · rintro ⟨hash', hget', hbad⟩
        obtain rfl := Option.some_inj.1 (hget.symm.trans hget')
        exact hbad fun _ ↦ by rw [hs]; rfl

theorem fillAll_eq_none {hashes : List String} {changed : Bool} {code : List Char}
    {slots : List HashSlot} : fillAll hashes changed code slots = none ↔
      ∃ slot ∈ slots, ∃ hash, hashes[slot.dependency.toNat]? = some hash ∧ ¬Cuttable hash := by
  induction slots generalizing changed code with
  | nil => exact iff_of_false (fun h ↦ by cases h) fun ⟨_, hm, _⟩ ↦ List.not_mem_nil hm
  | cons slot rest ih =>
    rw [fillAll]
    simp only [List.mem_cons, exists_eq_or_imp]
    cases h : fillOne hashes code slot with
    | none => exact iff_of_true rfl (.inl (fillOne_eq_none.1 h))
    | some r =>
      rw [or_iff_right (mt fillOne_eq_none.2 (h ▸ Option.some_ne_none r))]
      exact ih

/-- Slots cannot be filled exactly if a character lies across the end of one in the hash that belongs
there. -/
theorem fill_eq_none {code : String} {slots : List HashSlot} {hashes : List String} :
    fill code slots hashes = none ↔
      ∃ slot ∈ slots, ∃ hash, hashes[slot.dependency.toNat]? = some hash ∧ ¬Cuttable hash := by
  rw [fill, Option.map_eq_none_iff, fillAll_eq_none]

theorem exists_fill {hashes : List String} (h : ∀ hash ∈ hashes, IsHash hash) (code : String)
    (slots : List HashSlot) : ∃ r, fill code slots hashes = some r := by
  refine Option.ne_none_iff_exists'.1 fun hnone ↦ ?_
  obtain ⟨slot, -, hash, hget, hbad⟩ := fill_eq_none.1 hnone
  exact hbad (h hash (List.mem_of_getElem? hget)).cuttable

theorem fillOne_eq_some {hashes : List String} {code code' : List Char} {slot : HashSlot}
    {changed : Bool} (h : fillOne hashes code slot = some (changed, code')) :
    code' = code ∨ ∃ before inside new after, code = before ++ inside ++ after ∧
      code' = before ++ new ++ after ∧ octets before = slot.offset.toNat ∧
      octets inside = prefixLength ∧ octets new = prefixLength := by
  rw [fillOne] at h
  split at h
  · exact .inl (Prod.mk.inj (Option.some_inj.1 h)).2.symm
  · next hash _ =>
    obtain ⟨⟨start, rest⟩, hs, h⟩ := Option.bind_eq_some_iff.1 h
    obtain ⟨-, hn⟩ := splitAtOctet_eq_some.1 hs
    dsimp only at h
    split at h
    · exact .inl (Prod.mk.inj (Option.some_inj.1 h)).2.symm
    · next before inside after hcut =>
      obtain ⟨hc, hb, hi, -⟩ := cut?_eq_some.1 hcut
      split at h
      · exact .inl (Prod.mk.inj (Option.some_inj.1 h)).2.symm
      · obtain ⟨-, rfl⟩ := Prod.mk.inj (Option.some_inj.1 h)
        exact .inr ⟨before, inside, start, after, hc, rfl, hb, hi, hn⟩

theorem blank_fillAll {hashes : List String} {slots part : List HashSlot} {code code' : List Char}
    {changed changed' : Bool} (hp : slots.Pairwise Apart) (hsub : ∀ s ∈ part, s ∈ slots)
    (hc : ∀ s ∈ slots, ∃ x, Holds code s.offset.toNat x)
    (h : fillAll hashes changed code part = some (changed', code')) :
    blank slots code' = blank slots code := by
  induction part generalizing changed code with
  | nil =>
    rw [fillAll] at h
    rw [(Prod.mk.inj (Option.some_inj.1 h)).2]
  | cons slot rest ih =>
    rw [fillAll] at h
    obtain ⟨⟨now, code₁⟩, h₁, h₂⟩ := Option.bind_eq_some_iff.1 h
    have hrest : ∀ s ∈ rest, s ∈ slots := fun s hs ↦ hsub s (List.mem_cons_of_mem slot hs)
    rcases fillOne_eq_some h₁ with rfl | ⟨before, inside, new, after, rfl, rfl, hb, hi, hn⟩
    · exact ih hrest hc h₂
    · have hs := hsub slot List.mem_cons_self
      rw [ih hrest (fun s hm ↦ ?_) h₂, blank_replace hp hs hc hb hi hn]
      by_cases he : s = slot
      · obtain ⟨-, -, -, -, -, -, hw⟩ := hc s hm
        exact ⟨new, before, after, rfl, by rw [he, hb], hn, hw⟩
      · obtain ⟨x, hx⟩ := hc s hm
        refine ⟨x, hx.replace hi hn ?_⟩
        rw [hb]
        exact hp.forall hs hm (Ne.symm he)

theorem Linked.blank_fill {code code' : String} {hashes hashes' : List String} {slots : List HashSlot}
    {changed : Bool} (h : Linked code hashes slots)
    (hf : HashSlot.fill code slots hashes' = some (changed, code')) :
    blank slots code'.toList = blank slots code.toList := by
  rw [HashSlot.fill] at hf
  obtain ⟨⟨c, cs⟩, hall, he⟩ := Option.map_eq_some_iff.1 hf
  obtain ⟨-, rfl⟩ := Prod.mk.inj he
  rw [String.toList_ofList]
  refine blank_fillAll h.apart (fun _ hs ↦ hs) (fun s hs ↦ ?_) hall
  obtain ⟨_, _, hx⟩ := h.filled s hs
  exact ⟨_, hx⟩

/-- Filling slots once more gives what filling them with the last hashes alone would have given. -/
theorem Linked.fill_of_fill {code mid last : String} {first old new : List String}
    {slots : List HashSlot} {a b : Bool} (h : Linked code first slots)
    (ho : HashSlot.fill code slots old = some (a, mid))
    (hn : HashSlot.fill mid slots new = some (b, last))
    (hmid : Linked mid old slots) (hlast : Linked last new slots)
    (hl : first.length = new.length) (hi : ∀ hash ∈ new, IsHash hash)
    (hk : ∀ i : Nat, new[i]? = some "" → first[i]? = some "") :
    ∃ c, HashSlot.fill code slots new = some (c, last) := by
  obtain ⟨c, code', hf, -, hlinked⟩ := h.fill hl hi hk
  have hfilled : ∀ {code : String}, Linked code new slots → ∀ s ∈ slots,
      Holds code.toList s.offset.toNat (filling ((new[s.dependency.toNat]?).getD "")) := by
    intro code hc s hs
    obtain ⟨hash, hhash, hx⟩ := hc.filled s hs
    rwa [hhash]
  refine ⟨c, ?_⟩
  rw [hf, String.toList_inj.1 (eq_of_blank_eq h.apart (hfilled hlinked) (hfilled hlast) ?_)]
  rw [h.blank_fill hf, hmid.blank_fill hn, h.blank_fill ho]

end SiteCompiler.HashSlot
