import SiteCompiler.Proofs.Compilation

namespace SiteCompiler.Compiled

open Digest HashSlot Script.Points

section Occurrences

variable {x y : Char} {parts : List Part}

theorem occurrences_eq_zero {lead code : List Char} (h : Text.occursIn lead code = false) :
    occurrences lead code = 0 := by
  induction code with
  | nil => rfl
  | cons c code ih =>
    rw [Text.occursIn, Bool.or_eq_false_iff] at h
    rw [occurrences, if_neg (Bool.eq_false_iff.1 h.1), ih h.2]

/-- Tokens of different leads differ only behind their first character, so that a word which does not
go beyond it stands in front of both codes. -/
theorem prefix_spell {word : List Char} (hw : '_' ∉ word)
    (h : word <+: spell (tokenOf (leadOf y)) parts) : word <+: spell (tokenOf (leadOf x)) parts := by
  induction parts generalizing word with
  | nil => exact h
  | cons part parts ih =>
    cases part with
    | text content =>
      rw [spell] at h ⊢
      induction content generalizing word with
      | nil => exact ih hw h
      | cons c content ihc =>
        cases word with
        | nil => exact List.nil_prefix
        | cons d word =>
          obtain ⟨rfl, hword⟩ := List.cons_prefix_cons.1 h
          exact List.cons_prefix_cons.2
            ⟨rfl, ihc (fun hm ↦ hw (List.mem_cons_of_mem d hm)) hword⟩
    | place index =>
      rw [spell, tokenOf_leadOf, List.cons_append] at h
      cases word with
      | nil => exact List.nil_prefix
      | cons d word =>
        obtain ⟨rfl, -⟩ := List.cons_prefix_cons.1 h
        exact absurd List.mem_cons_self hw

/-- In front of the parts a text adds no more occurrences of a lead where that leads the tokens than
where another one does. -/
theorem occurrences_text (hy : y ≠ '_') (content : List Char) :
    occurrences (leadOf y) (content ++ spell (tokenOf (leadOf y)) parts) +
        occurrences (leadOf y) (spell (tokenOf (leadOf x)) parts) ≤
      occurrences (leadOf y) (content ++ spell (tokenOf (leadOf x)) parts) +
        occurrences (leadOf y) (spell (tokenOf (leadOf y)) parts) := by
  induction content with
  | nil => exact Nat.le_of_eq (Nat.add_comm _ _)
  | cons c content ih =>
    have hat : (leadOf y).isPrefixOf (c :: (content ++ spell (tokenOf (leadOf y)) parts)) = true →
        (leadOf y).isPrefixOf (c :: (content ++ spell (tokenOf (leadOf x)) parts)) = true := by
      intro h
      rw [List.isPrefixOf_iff_prefix, leadOf, List.cons_prefix_cons] at h ⊢
      refine ⟨h.1, @prefix_spell _ _ (.text content :: parts) _ ?_ h.2⟩
      simpa using hy.symm
    rw [List.cons_append, List.cons_append, occurrences, occurrences]
    split
    · next h =>
      rw [if_pos (hat h)]
      omega
    · omega

theorem occurrences_append_of_not_mem {word : List Char} (hw : '_' ∉ word) (rest : List Char) :
    occurrences (leadOf y) (word ++ rest) = occurrences (leadOf y) rest := by
  induction word with
  | nil => rfl
  | cons c word ih =>
    have hc : ¬(leadOf y).isPrefixOf (c :: (word ++ rest)) = true := by
      intro h
      rw [List.isPrefixOf_iff_prefix, leadOf, List.cons_prefix_cons] at h
      exact hw (h.1 ▸ List.mem_cons_self)
    rw [List.cons_append, occurrences, if_neg hc, Nat.zero_add,
      ih fun hm ↦ hw (List.mem_cons_of_mem c hm)]

theorem occurrences_token_le (hy : y ≠ '_') (index : Nat) (rest : List Char) :
    occurrences (leadOf y) (tokenOf (leadOf y) index ++ rest) ≤
      1 + occurrences (leadOf y) rest := by
  have hw : '_' ∉ y :: '$' :: tokenDigits index := by
    intro hm
    rcases List.mem_cons.1 hm with he | hm
    · exact hy he.symm
    · rcases List.mem_cons.1 hm with he | hm
      · exact absurd he (by decide)
      · exact absurd (isDigit_of_mem_tokenDigits hm) (by decide)
  rw [tokenOf_leadOf, List.cons_append, occurrences, occurrences_append_of_not_mem hw]
  split <;> omega

/-- With the lead of the tokens changed, it occurs in tokens and where it occurred before. -/
theorem occurrences_le_add_countP (hy : y ≠ '_') (parts : List Part) :
    occurrences (leadOf y) (spell (tokenOf (leadOf y)) parts) ≤
      occurrences (leadOf y) (spell (tokenOf (leadOf x)) parts) + parts.countP Part.isPlace := by
  induction parts with
  | nil => exact Nat.zero_le _
  | cons part parts ih =>
    cases part with
    | text content =>
      have htext := @occurrences_text x y parts hy content
      rw [List.countP_cons_of_neg Bool.false_ne_true, spell, spell]
      omega
    | place index =>
      have htoken := occurrences_token_le hy index (spell (tokenOf (leadOf y)) parts)
      have hmono := occurrences_le_append (leadOf y) (tokenOf (leadOf x) index)
        (spell (tokenOf (leadOf x)) parts)
      rw [List.countP_cons_of_pos rfl, spell, spell]
      omega

end Occurrences

section Leads

variable {pieces : List Piece} {texts : List (List Char)} {lead lead' : List Char}

theorem ne_of_mem_leadLetters {letter : Char} (h : letter ∈ leadLetters) : letter ≠ '_' := by
  rintro rfl
  exact absurd h (by decide)

theorem freeLead?_eq_none (h : freeLead? texts = none) {letter : Char} (hl : letter ∈ leadLetters) :
    ∃ text ∈ texts, Text.occursIn (leadOf letter) text = true := by
  have hnot := List.find?_eq_none.1 h (leadOf letter) (List.mem_map_of_mem hl)
  obtain ⟨text, ht, hocc⟩ := List.all_eq_false.1 (Bool.eq_false_iff.2 hnot)
  exact ⟨text, ht, by simpa using hocc⟩

theorem occursIn_eq_false_of_freeLead? (h : freeLead? texts = some lead) {text : List Char}
    (ht : text ∈ texts) : Text.occursIn lead text = false := by
  have hall := List.find?_some h
  have hnot := List.all_eq_true.1 hall text ht
  simpa using hnot

theorem exists_writeWith? (hlead : ∃ letter ∈ leadLetters, lead = leadOf letter)
    (hfree : freeLead? texts = some lead') (ht : written (tokenOf lead) pieces ∈ texts) :
    ∃ code, writeWith? pieces lead' = some code := by
  obtain ⟨x, hx, rfl⟩ := hlead
  obtain ⟨y, hy, rfl⟩ := eq_leadOf_of_freeLead? hfree
  have hzero := occurrences_eq_zero (occursIn_eq_false_of_freeLead? hfree ht)
  rw [written_eq_spell (tokenOf (leadOf x)) fun _ _ hc ↦ isPlain_of_mem_tokenOf hx hc] at hzero
  have hle := occurrences_le_add_countP (x := x) (ne_of_mem_leadLetters hy) (partsOf pieces)
  have hge := countP_le_occurrences y (partsOf pieces)
  have hcount : occurrences (leadOf y) (written (tokenOf (leadOf y)) pieces) =
      pieces.countP hasSlot := by
    rw [written_eq_spell (tokenOf (leadOf y)) fun _ _ hc ↦ isPlain_of_mem_tokenOf hy hc,
      ← countP_partsOf]
    omega
  exact ⟨_, if_pos hcount⟩

/-- Code can be put together unless all leads occur in its source or in the code as it is written
first. -/
theorem occursIn_of_assemble?_eq_none {source : List Char}
    (hlead : ∃ letter ∈ leadLetters, lead = leadOf letter) (h : assemble? source lead pieces = none)
    {letter : Char} (hl : letter ∈ leadLetters) :
    Text.occursIn (leadOf letter) source = true ∨
      Text.occursIn (leadOf letter) (written (tokenOf lead) pieces) = true := by
  rw [assemble?] at h
  cases hw : writeWith? pieces lead with
  | some code =>
    rw [hw] at h
    cases h
  | none =>
    rw [hw] at h
    cases hfree : freeLead? [source, written (tokenOf lead) pieces] with
    | some lead' =>
      obtain ⟨code, hcode⟩ := @exists_writeWith? pieces _ _ _ hlead hfree
        (List.mem_cons_of_mem _ List.mem_cons_self)
      rw [hfree, Option.bind_eq_bind, Option.bind_some, hcode] at h
      cases h
    | none =>
      obtain ⟨text, ht, hocc⟩ := freeLead?_eq_none hfree hl
      rcases List.mem_cons.1 ht with rfl | ht
      · exact .inl hocc
      · exact .inr (List.mem_singleton.1 ht ▸ hocc)

end Leads

section Filling

def IsHexHash (hash : String) : Prop :=
  hash.length = 40 ∧ ∀ c ∈ hash.toList, (Json.Document.hexDigit? c).isSome

def slotDigits (hashes : List String) (index : Nat) : List Char :=
  ((hashes[index]?).getD "").toList.take prefixLength

variable {hashes : List String} {hash : String} {index : Nat}

theorem isPlain_of_hexDigit? {c : Char} (h : (Json.Document.hexDigit? c).isSome) : isPlain c := by
  have hc : c.isDigit ∨ 'a' ≤ c ∧ c ≤ 'f' ∨ 'A' ≤ c ∧ c ≤ 'F' := by
    rw [Json.Document.hexDigit?] at h
    split at h
    · next hd => exact .inl hd
    · split at h
      · next hd => exact .inr (.inl hd)
      · split at h
        · next hd => exact .inr (.inr hd)
        · cases h
  rcases hc with hd | ⟨ha, hf⟩ | ⟨ha, hf⟩
  · exact isPlain_of_isDigit hd
  · have hlower : c.isLower = true := by
      simp only [Char.isLower, Bool.and_eq_true, decide_eq_true_eq]
      exact ⟨ha, Nat.le_trans hf (by decide)⟩
    simp [isPlain, Char.isAlphanum, Char.isAlpha, hlower]
  · have hupper : c.isUpper = true := by
      simp only [Char.isUpper, decide_eq_true_eq]
      exact ⟨ha, Nat.le_trans hf (by decide)⟩
    simp [isPlain, Char.isAlphanum, Char.isAlpha, hupper]

theorem IsHexHash.utf8Size (h : IsHexHash hash) {c : Char} (hc : c ∈ hash.toList) :
    c.utf8Size = 1 :=
  utf8Size_of_isPlain (isPlain_of_hexDigit? (h.2 c hc))

theorem IsHexHash.octets_take (h : IsHexHash hash) :
    octets (hash.toList.take prefixLength) = prefixLength := by
  have hl : prefixLength ≤ hash.toList.length := by
    rw [String.length_toList, h.1]
    decide
  rw [octets_of_ascii fun c hc ↦ h.utf8Size (List.mem_of_mem_take hc), List.length_take,
    Nat.min_eq_left hl]

theorem IsHexHash.fillOne (h : IsHexHash hash) (slot : HashSlot) (before after : List Char)
    (hh : hashes[slot.dependency.toNat]? = some hash)
    (hb : octets before = slot.offset.toNat)
    (hw : slot.offset.toNat + prefixLength < UInt64.size) :
    ∃ changed, HashSlot.fillOne hashes (before ++ zeros ++ after) slot =
      some (changed, before ++ hash.toList.take prefixLength ++ after) := by
  have hsplit : splitAtOctet prefixLength hash.toList =
      some (hash.toList.take prefixLength, hash.toList.drop prefixLength) :=
    splitAtOctet_eq_some.2 ⟨(List.take_append_drop _ _).symm, h.octets_take⟩
  have hlong : prefixLength ≤ hash.utf8ByteSize := by
    rw [utf8ByteSize_eq_octets, octets_of_ascii fun c hc ↦ h.utf8Size hc, String.length_toList, h.1]
    decide
  have hcut : cut? (before ++ zeros ++ after) slot = some (before, zeros, after) :=
    cut?_eq_some.2 ⟨rfl, hb, rfl, hw⟩
  rw [HashSlot.fillOne, usable?, hh, Option.filter_some, if_pos (decide_eq_true hlong)]
  dsimp only
  rw [hsplit, Option.bind_eq_bind, Option.bind_some, hcut]
  dsimp only
  split
  · next he => exact ⟨false, by rw [he]; rfl⟩
  · exact ⟨true, rfl⟩

theorem fillAll_slotsOf {parts : List Part}
    (h : ∀ index, Part.place index ∈ parts →
      index ≤ maxIndex ∧ ∃ hash, hashes[index]? = some hash ∧ IsHexHash hash)
    (changed : Bool) (before : List Char)
    (hw : octets (before ++ spell (fun _ ↦ zeros) parts) < UInt64.size) :
    ∃ changed', fillAll hashes changed (before ++ spell (fun _ ↦ zeros) parts)
      (slotsOf (octets before) parts) =
        some (changed', before ++ spell (slotDigits hashes) parts) := by
  induction parts generalizing changed before with
  | nil => exact ⟨changed, rfl⟩
  | cons part parts ih =>
    have hrest : ∀ index, Part.place index ∈ parts →
        index ≤ maxIndex ∧ ∃ hash, hashes[index]? = some hash ∧ IsHexHash hash := fun i hp ↦
      h i (List.mem_cons_of_mem part hp)
    cases part with
    | text content =>
      rw [spell, ← List.append_assoc] at hw
      have hfill := ih hrest changed (before ++ content) hw
      rw [octets_append] at hfill
      rw [spell, spell, slotsOf, ← List.append_assoc, ← List.append_assoc]
      exact hfill
    | place index =>
      obtain ⟨hle, hash, hh, hhex⟩ := h index List.mem_cons_self
      have hdigits : slotDigits hashes index = hash.toList.take prefixLength := by
        rw [slotDigits, hh, Option.getD_some]
      rw [spell, octets_append, octets_append, show octets zeros = prefixLength from rfl] at hw
      have hoffset : (UInt64.ofNat (octets before)).toNat = octets before :=
        UInt64.toNat_ofNat_of_lt' (by omega)
      obtain ⟨now, hone⟩ := hhex.fillOne ⟨.ofNat index, .ofNat (octets before)⟩ before
        (spell (fun _ ↦ zeros) parts)
        (by rwa [toNat_ofNat_index hle]) hoffset.symm (by rw [hoffset]; omega)
      obtain ⟨changed', hfill⟩ := ih hrest (changed || now) (before ++ hash.toList.take prefixLength)
        (by rw [octets_append, octets_append, hhex.octets_take]; omega)
      rw [octets_append, hhex.octets_take] at hfill
      refine ⟨changed', ?_⟩
      rw [spell, spell, slotsOf, fillAll, ← List.append_assoc, ← List.append_assoc, hone, hdigits]
      exact hfill

end Filling

section Slots

def slotIndex? : Piece → Option Nat
  | .link (.dependency index _ true) => some index
  | _ => none

def placeIndex? : Part → Option Nat
  | .place index => some index
  | .text _ => none

theorem filterMap_partsOf (pieces : List Piece) :
    (partsOf pieces).filterMap placeIndex? = pieces.filterMap slotIndex? := by
  induction pieces with
  | nil => rfl
  | cons piece pieces ih =>
    match piece with
    | .text _ => exact ih
    | .link (.passthrough _) => exact ih
    | .link (.dependency _ _ false) => exact ih
    | .link (.dependency index _ true) => exact congrArg (index :: ·) ih

theorem map_slotsOf {parts : List Part} (octet : Nat)
    (hi : ∀ index, Part.place index ∈ parts → index ≤ maxIndex) :
    (slotsOf octet parts).map (·.dependency.toNat) = parts.filterMap placeIndex? := by
  induction parts generalizing octet with
  | nil => rfl
  | cons part parts ih =>
    have hrest := fun octet ↦ ih octet fun i hp ↦ hi i (List.mem_cons_of_mem part hp)
    cases part with
    | text content => exact hrest _
    | place index =>
      rw [slotsOf, List.map_cons, hrest, toNat_ofNat_index (hi index List.mem_cons_self)]
      rfl

theorem slotsOf_ascending {parts : List Part} (octet : Nat)
    (hw : octet + octets (spell (fun _ ↦ zeros) parts) < UInt64.size) :
    (∀ s ∈ slotsOf octet parts, octet ≤ s.offset.toNat) ∧
    (slotsOf octet parts).Pairwise fun s t ↦ s.offset.toNat + prefixLength ≤ t.offset.toNat := by
  induction parts generalizing octet with
  | nil => exact ⟨fun _ hs ↦ (List.not_mem_nil hs).elim, .nil⟩
  | cons part parts ih =>
    cases part with
    | text content =>
      rw [spell, octets_append] at hw
      obtain ⟨hle, hpairs⟩ := ih (octet + octets content) (by omega)
      exact ⟨fun s hs ↦ Nat.le_trans (Nat.le_add_right _ _) (hle s hs), hpairs⟩
    | place index =>
      rw [spell, octets_append, show octets zeros = prefixLength from rfl] at hw
      have hoffset : (UInt64.ofNat octet).toNat = octet :=
        UInt64.toNat_ofNat_of_lt' (by omega)
      obtain ⟨hle, hpairs⟩ := ih (octet + prefixLength) (by omega)
      refine ⟨fun s hs ↦ ?_, List.pairwise_cons.2 ⟨fun s hs ↦ ?_, hpairs⟩⟩
      · rcases List.mem_cons.1 hs with rfl | hs
        · exact Nat.le_of_eq hoffset.symm
        · exact Nat.le_trans (Nat.le_add_right _ _) (hle s hs)
      · rw [hoffset]
        exact hle s hs

end Slots

/-- What the code of a linked script has to be: a slot for each hash in it, one behind the other, and
filled with hashes the text that is written with them. -/
structure Exact (c : Compiled) (pieces : List Piece) : Prop where
  slots : c.slots.map (·.dependency.toNat) = pieces.filterMap slotIndex?
  ascending : c.slots.Pairwise fun s t ↦ s.offset.toNat + prefixLength ≤ t.offset.toNat
  filled : ∀ hashes : List String, hashes.length = c.dependencies.length →
    (∀ hash ∈ hashes, IsHexHash hash) → ∃ changed, HashSlot.fill c.code c.slots hashes =
      some (changed, .ofList (written (slotDigits hashes) pieces))

theorem exact_spell {c : Compiled} {pieces : List Piece} (hi : Indexed pieces c.dependencies.length)
    (hc : c.code = .ofList (spell (fun _ ↦ zeros) (partsOf pieces)))
    (hs : c.slots = slotsOf 0 (partsOf pieces))
    (hw : octets (spell (fun _ ↦ zeros) (partsOf pieces)) < UInt64.size) : Exact c pieces := by
  obtain ⟨-, hpairs⟩ := slotsOf_ascending 0 (by rwa [Nat.zero_add])
  refine ⟨?_, hs ▸ hpairs, fun hashes hl hhex ↦ ?_⟩
  · rw [hs, map_slotsOf 0 fun index hp ↦ hi.le_maxIndex hp, filterMap_partsOf]
  · have hplain : ∀ i, ∀ d ∈ slotDigits hashes i, isPlain d := by
      intro i d hd
      have hd := List.mem_of_mem_take hd
      cases hh : hashes[i]? with
      | none =>
        rw [hh] at hd
        exact (List.not_mem_nil hd).elim
      | some hash =>
        rw [hh] at hd
        exact isPlain_of_hexDigit? ((hhex hash (List.mem_of_getElem? hh)).2 d hd)
    have hplaces : ∀ index, Part.place index ∈ partsOf pieces →
        index ≤ maxIndex ∧ ∃ hash, hashes[index]? = some hash ∧ IsHexHash hash := by
      intro index hp
      obtain ⟨path, hp⟩ := mem_partsOf hp
      have hlt : index < hashes.length := hl ▸ (hi index path hp).1
      exact ⟨(hi index path hp).2, _, List.getElem?_eq_getElem hlt, hhex _ (List.getElem_mem hlt)⟩
    obtain ⟨changed, hfill⟩ := fillAll_slotsOf hplaces false [] hw
    refine ⟨changed, ?_⟩
    rw [HashSlot.fill, hc, hs, String.toList_ofList, written_eq_spell _ hplain]
    exact congrArg (Option.map fun r : Bool × List Char ↦ (r.1, String.ofList r.2)) hfill

/-- A script whose specifiers can be linked is compiled to exact code, unless each lead occurs in its
source or in the code as it is written first, or the octets of the code are more than words can
number. -/
theorem exact_of_compile {l : Linkage} {dialect : Dialect} {source : String}
    {template : Script.Template} {pieces : List Piece} {dependencies : List String}
    (ht : Script.template? dialect source = some template)
    (hl : linkAll l [] template = (pieces, dependencies, [])) (withMap : Bool) :
    (∃ c, compile l dialect source withMap = .ok c ∧ c.dependencies = dependencies ∧
      Exact c pieces) ∨
    (compile l dialect source withMap = .error ⟨l.importer, [.noFreeLead]⟩ ∧
      ∀ letter ∈ leadLetters, Text.occursIn (leadOf letter) source.toList = true ∨
        ∃ lead, freeLead? [source.toList] = some lead ∧
          Text.occursIn (leadOf letter) (written (tokenOf lead) pieces) = true) ∨
    (compile l dialect source withMap = .error ⟨l.importer, [.tooLong]⟩ ∧
      UInt64.size ≤ octets (written (fun _ ↦ zeros) pieces)) := by
  rw [compile]
  dsimp only
  cases hlead : freeLead? [source.toList] with
  | none =>
    refine .inr (.inl ⟨rfl, fun letter hletter ↦ .inl ?_⟩)
    obtain ⟨text, ht, hocc⟩ := freeLead?_eq_none hlead hletter
    exact List.mem_singleton.1 ht ▸ hocc
  | some lead =>
    have hletter := eq_leadOf_of_freeLead? hlead
    obtain ⟨-, hi⟩ := linkAll_grown hl
    dsimp only
    rw [ht]
    dsimp only
    rw [hl]
    dsimp only
    cases ha : assemble? source.toList lead pieces with
    | none =>
      refine .inr (.inl ⟨rfl, fun letter hmem ↦ ?_⟩)
      exact (occursIn_of_assemble?_eq_none hletter ha hmem).imp_right fun hocc ↦ ⟨lead, rfl, hocc⟩
    | some r =>
      obtain rfl := assemble?_eq hletter hi ha
      dsimp only
      rw [utf8ByteSize_eq_octets, String.toList_ofList]
      split
      · next hw => exact .inl ⟨_, rfl, rfl, exact_spell hi rfl rfl hw⟩
      · next hw =>
        refine .inr (.inr ⟨rfl, ?_⟩)
        have hzeros : ∀ c ∈ zeros, isPlain c := List.all_eq_true.1 (by decide)
        rw [written_eq_spell _ fun _ ↦ hzeros]
        exact Nat.le_of_not_lt hw

def plainLinkage : Linkage :=
  ⟨"/a.js", ⟨[]⟩, true, fun _ ↦ none⟩

def disguised : String :=
  "import \"./b.js\";\nexport default \"\\x5fa$000000\";\n"

def disguisedPieces : List Piece :=
  [.text "import \"".toList, .link (.dependency 0 "./b" true),
    .text "\";\nexport default \"_a$000000\";\n".toList]

theorem exact_disguised : ∃ c, compile plainLinkage .js disguised false = .ok c ∧
    c.dependencies = ["/b.js"] ∧ Exact c disguisedPieces := by
  have ht : Script.template? .js disguised =
      some [.text "import \"".toList, .specifier ("./b.js".toList.map Char.toNat),
        .text "\";\nexport default \"_a$000000\";\n".toList] := by
    decide +kernel
  have hl : linkAll plainLinkage [] [.text "import \"".toList,
      .specifier ("./b.js".toList.map Char.toNat),
      .text "\";\nexport default \"_a$000000\";\n".toList] = (disguisedPieces, ["/b.js"], []) := by
    decide +kernel
  rcases exact_of_compile ht hl false with h | ⟨-, hocc⟩ | ⟨-, hlong⟩
  · exact h
  · have hfree : freeLead? [disguised.toList] = some (leadOf 'a') := by
      decide +kernel
    rcases hocc 'b' (by decide) with h | ⟨lead, hlead, h⟩
    · exact absurd h (by decide +kernel)
    · obtain rfl := Option.some.inj (hlead.symm.trans hfree)
      exact absurd h (by decide +kernel)
  · exact absurd hlong (by decide +kernel)

end SiteCompiler.Compiled
