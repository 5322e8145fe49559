import SiteCompiler.Compilation
import SiteCompiler.Proofs.HashSlot
import SiteCompiler.Proofs.Json.Reading

namespace SiteCompiler

namespace Script.Points

def isPlain (c : Char) : Bool :=
  c.isAlphanum || c = '_' || c = '$' || c = '.'

theorem startsClosingScript_dot (a rest : Points) :
    startsClosingScript (a ++ 46 :: rest) = startsClosingScript (a ++ [46]) := by
  by_cases ha : closesScript.length ≤ a.length
  · rw [startsClosingScript, startsClosingScript, List.take_append_of_le_length ha,
      List.take_append_of_le_length ha]
  · have h : ∀ r : Points, startsClosingScript (a ++ 46 :: r) = false := by
      intro r
      rw [startsClosingScript, decide_eq_false_iff_not]
      intro he
      have hm : 46 ∈ (a ++ 46 :: r).take closesScript.length := by
        have hs : (a ++ 46 :: r).take closesScript.length =
            a ++ (46 :: r).take (closesScript.length - a.length) := by
          rw [List.take_append, List.take_of_length_le (by omega)]
        obtain ⟨k, hk⟩ : ∃ k, closesScript.length - a.length = k + 1 :=
          ⟨closesScript.length - a.length - 1, by omega⟩
        rw [hs, hk, List.take_succ_cons]
        simp
      have hc : 46 ∈ closesScript := he ▸ List.mem_map.2 ⟨46, hm, by decide⟩
      exact absurd hc (by decide)
    rw [h, h]

theorem content_dot (a rest : Points) :
    content (a ++ 46 :: rest) = content (a ++ [46]) ++ content rest := by
  induction a with
  | nil =>
    have h := startsClosingScript_dot [] rest
    simp only [List.nil_append] at h ⊢
    rw [content, h]
    rfl
  | cons n a ih =>
    have hh : (a ++ 46 :: rest).head? = (a ++ [46]).head? := by cases a <;> rfl
    rw [List.cons_append, content, ← List.cons_append, startsClosingScript_dot, ih, hh,
      ← List.append_assoc]
    rfl

theorem escape_isPlain {c : Char} (hc : isPlain c) (next? : Option Nat) :
    escape c.toNat next? = [c] := by
  have hs : isSurrogate c.toNat = false := by
    have hv : isSurrogate c.toNat = true → isPlain c = false := by
      intro h
      have hr := c.valid
      simp only [isSurrogate, Bool.and_eq_true, decide_eq_true_eq] at h
      rcases hr with hr | hr <;> simp only [Char.toNat, UInt32.toNat] at h hr <;> omega
    cases hn : isSurrogate c.toNat with
    | false => rfl
    | true => rw [hv hn] at hc; cases hc
  rw [escape, hs, if_neg (by decide), Char.ofNat_toNat]
  split
  all_goals first | rfl | exact absurd hc (by decide)

theorem content_isPlain {cs : List Char} (h : ∀ c ∈ cs, isPlain c) :
    content (cs.map Char.toNat) = cs := by
  induction cs with
  | nil => rfl
  | cons c cs ih =>
    have hc := h c List.mem_cons_self
    have hs : startsClosingScript (c.toNat :: cs.map Char.toNat) = false := by
      rw [startsClosingScript, decide_eq_false_iff_not]
      intro he
      have hn : (if 65 ≤ c.toNat ∧ c.toNat ≤ 90 then c.toNat + 32 else c.toNat) = 60 :=
        (List.cons.inj he).1
      have h60 : c.toNat = 60 := by split at hn <;> omega
      have hlt : c = '<' := by rw [← Char.ofNat_toNat c, h60]
      rw [hlt] at hc
      exact absurd hc (by decide)
    rw [List.map_cons, content, hs, if_neg (by decide), escape_isPlain hc,
      ih fun d hd ↦ h d (List.mem_cons_of_mem c hd)]
    rfl

end Script.Points

namespace Compiled

open Digest HashSlot Script.Points

inductive Part where
  | text (content : List Char)
  | place (index : Nat)

def Part.isPlace : Part → Bool
  | .place _ => true
  | .text _ => false

def partsOfLink : Linkage.Link → List Part
  | .passthrough text => [.text (content (text.toList.map Char.toNat))]
  | .dependency index path true =>
    [.text (content ((path.toList ++ ['.']).map Char.toNat)), .place index, .text ".js".toList]
  | .dependency _ path false => [.text (content ((path.toList ++ ".js".toList).map Char.toNat))]

def partsOf : List Piece → List Part
  | [] => []
  | .text content :: rest => .text content :: partsOf rest
  | .link l :: rest => partsOfLink l ++ partsOf rest

/-- Parts as they are written, when `slot` tells what stands for a hash. -/
def spell (slot : Nat → List Char) : List Part → List Char
  | [] => []
  | .text content :: rest => content ++ spell slot rest
  | .place index :: rest => slot index ++ spell slot rest

theorem spell_append (slot : Nat → List Char) (ps qs : List Part) :
    spell slot (ps ++ qs) = spell slot ps ++ spell slot qs := by
  induction ps with
  | nil => rfl
  | cons p ps ih => cases p <;> simp only [List.cons_append, spell, ih, List.append_assoc]

theorem written_eq_spell (slot : Nat → List Char) (hs : ∀ i, ∀ c ∈ slot i, isPlain c)
    (pieces : List Piece) : written slot pieces = spell slot (partsOf pieces) := by
  have hlink : ∀ l, content ((linkText slot l).map Char.toNat) = spell slot (partsOfLink l) := by
    intro l
    match l with
    | .passthrough text => simp only [linkText, partsOfLink, spell, List.append_nil]
    | .dependency index path true =>
      have hd : (path.toList ++ '.' :: slot index ++ ".js".toList).map Char.toNat =
          path.toList.map Char.toNat ++ 46 :: (slot index ++ ".js".toList).map Char.toNat := by
        simp only [List.map_append, List.map_cons, List.append_assoc, List.cons_append]
        rfl
      have hp : ∀ c ∈ slot index ++ ".js".toList, isPlain c := by
        intro c hc
        rcases List.mem_append.1 hc with hc | hc
        · exact hs index c hc
        · have hj : ∀ c ∈ ".js".toList, isPlain c := List.all_eq_true.1 (by decide)
          exact hj c hc
      change content ((path.toList ++ '.' :: slot index ++ ".js".toList).map Char.toNat) = _
      rw [hd, content_dot, content_isPlain hp]
      simp only [partsOfLink, spell, List.append_nil, List.map_append, List.map_cons, List.map_nil]
      rfl
    | .dependency index path false =>
      change content ((path.toList ++ [] ++ ".js".toList).map Char.toNat) = _
      simp only [partsOfLink, spell, List.append_nil]
  induction pieces with
  | nil => rfl
  | cons p pieces ih =>
    cases p with
    | text content => rw [written, partsOf, spell, ih]
    | link l => rw [written, partsOf, spell_append, ih, hlink]

theorem countP_partsOf (pieces : List Piece) :
    (partsOf pieces).countP Part.isPlace = pieces.countP hasSlot := by
  induction pieces with
  | nil => rfl
  | cons p pieces ih =>
    match p with
    | .text _ => simpa [partsOf, Part.isPlace, hasSlot] using ih
    | .link (.passthrough _) => simpa [partsOf, partsOfLink, Part.isPlace, hasSlot] using ih
    | .link (.dependency _ _ false) => simpa [partsOf, partsOfLink, Part.isPlace, hasSlot] using ih
    | .link (.dependency _ _ true) =>
      simp [partsOf, partsOfLink, Part.isPlace, hasSlot, List.countP_cons, ih]

theorem mem_partsOf {pieces : List Piece} {index : Nat} (h : Part.place index ∈ partsOf pieces) :
    ∃ path, Piece.link (.dependency index path true) ∈ pieces := by
  induction pieces with
  | nil => cases h
  | cons p pieces ih =>
    have hrest : Part.place index ∈ partsOf pieces →
        ∃ path, Piece.link (.dependency index path true) ∈ p :: pieces := fun h ↦
      (ih h).imp fun _ ↦ List.mem_cons_of_mem p
    match p with
    | .text _ => exact hrest (by simpa [partsOf] using h)
    | .link (.passthrough _) => exact hrest (by simpa [partsOf, partsOfLink] using h)
    | .link (.dependency _ _ false) => exact hrest (by simpa [partsOf, partsOfLink] using h)
    | .link (.dependency i path true) =>
      simp only [partsOf, partsOfLink, List.cons_append, List.nil_append, List.mem_cons,
        reduceCtorEq, false_or, Part.place.injEq] at h
      rcases h with rfl | h
      · exact ⟨path, List.mem_cons_self⟩
      · exact hrest h

section Tokens

variable {letter : Char} {index : Nat}

theorem length_toDigits (h : index ≤ maxIndex) : (Nat.toDigits 10 index).length ≤ indexDigits :=
  (Nat.length_toDigits_le_iff (by decide) (by decide)).2 (by
    have : maxIndex < 10 ^ indexDigits := by decide
    omega)

def tokenDigits (index : Nat) : List Char :=
  List.replicate (indexDigits - (Nat.toDigits 10 index).length) '0' ++ Nat.toDigits 10 index

theorem tokenOf_leadOf : tokenOf (leadOf letter) index = '_' :: letter :: '$' :: tokenDigits index := by
  simp only [tokenOf, leadOf, tokenDigits, List.cons_append, List.nil_append]

theorem isDigit_of_mem_tokenDigits {c : Char} (hc : c ∈ tokenDigits index) : c.isDigit := by
  rcases List.mem_append.1 hc with hc | hc
  · rw [List.eq_of_mem_replicate hc]
    decide
  · exact Json.natDigits_isDigit hc

theorem length_tokenDigits (h : index ≤ maxIndex) : (tokenDigits index).length = indexDigits := by
  have hl := length_toDigits h
  rw [tokenDigits, List.length_append, List.length_replicate]
  omega

theorem foldl_tokenDigits :
    (tokenDigits index).foldl (fun n c ↦ n * 10 + (c.toNat - 48)) 0 = index := by
  have hz : ∀ k : Nat,
      (List.replicate k '0').foldl (fun n c ↦ n * 10 + (c.toNat - 48)) 0 = 0 := by
    intro k
    induction k with
    | zero => rfl
    | succ k ih => rw [List.replicate_succ, List.foldl_cons]; exact ih
  have ho : ∀ (cs : List Char) (k : Nat),
      cs.foldl (fun n c ↦ n * 10 + (c.toNat - 48)) k = Nat.ofDigitChars 10 cs k := by
    intro cs
    induction cs with
    | nil => intro k; rfl
    | cons c cs ih =>
      intro k
      rw [List.foldl_cons, ih, Nat.ofDigitChars_cons, Nat.mul_comm]
      rfl
  rw [tokenDigits, List.foldl_append, hz, ho]
  exact Nat.ofDigitChars_ten_toDigits

theorem tokenIndex?_tokenOf (letter : Char) (h : index ≤ maxIndex) (rest : List Char) :
    tokenIndex? (leadOf letter) (tokenOf (leadOf letter) index ++ rest) = some index := by
  have hd : ((tokenOf (leadOf letter) index ++ rest).drop (leadOf letter).length).take indexDigits =
      tokenDigits index := by
    rw [tokenOf_leadOf]
    exact List.take_left' (length_tokenDigits h)
  have hp : (leadOf letter).isPrefixOf (tokenOf (leadOf letter) index ++ rest) = true := by
    rw [List.isPrefixOf_iff_prefix, tokenOf, List.append_assoc, List.append_assoc]
    exact List.prefix_append _ _
  rw [tokenIndex?, if_pos hp]
  simp only [hd]
  rw [if_pos ⟨length_tokenDigits h, List.all_eq_true.2 fun c hc ↦ isDigit_of_mem_tokenDigits hc⟩,
    foldl_tokenDigits]

theorem isPlain_of_isDigit {c : Char} (h : c.isDigit) : isPlain c := by
  simp [isPlain, Char.isAlphanum, h]

theorem isPlain_of_mem_tokenOf (hl : letter ∈ leadLetters) {c : Char}
    (hc : c ∈ tokenOf (leadOf letter) index) : isPlain c := by
  have hp : ∀ l ∈ leadLetters, isPlain l := List.all_eq_true.1 (by decide)
  rw [tokenOf_leadOf] at hc
  simp only [List.mem_cons] at hc
  rcases hc with rfl | rfl | rfl | hc
  · decide
  · exact hp _ hl
  · decide
  · exact isPlain_of_isDigit (isDigit_of_mem_tokenDigits hc)

end Tokens

def slotsOf (octet : Nat) : List Part → List HashSlot
  | [] => []
  | .text content :: rest => slotsOf (octet + octets content) rest
  | .place index :: rest => ⟨.ofNat index, .ofNat octet⟩ :: slotsOf (octet + prefixLength) rest

def zeros : List Char :=
  List.replicate prefixLength '0'

theorem occurrences_le_append (lead a b : List Char) :
    occurrences lead b ≤ occurrences lead (a ++ b) := by
  induction a with
  | nil => exact Nat.le_refl _
  | cons c a ih =>
    rw [List.cons_append, occurrences]
    omega

theorem blankFrom_text {lead a b : List Char} (h : occurrences lead (a ++ b) ≤ occurrences lead b)
    (octet : Nat) :
    blankFrom lead octet 0 (a ++ b) =
      (a ++ (blankFrom lead (octet + octets a) 0 b).1,
        (blankFrom lead (octet + octets a) 0 b).2) := by
  induction a generalizing octet with
  | nil => rfl
  | cons c a ih =>
    have hab := occurrences_le_append lead a b
    rw [List.cons_append, occurrences] at h
    have hlead : ¬lead.isPrefixOf (c :: (a ++ b)) = true := by
      intro hp
      rw [if_pos hp] at h
      omega
    rw [if_neg hlead] at h
    have ht : tokenIndex? lead (c :: (a ++ b)) = none := if_neg hlead
    rw [List.cons_append, blankFrom.eq_def, octets_cons, ← Nat.add_assoc]
    dsimp only
    rw [ht, ih (by omega)]
    rfl

theorem blankFrom_inToken (lead : List Char) {a : List Char} (b : List Char)
    (ha : ∀ c ∈ a, c.utf8Size = 1) (octet : Nat) :
    blankFrom lead octet a.length (a ++ b) =
      (List.replicate a.length '0' ++ (blankFrom lead (octet + a.length) 0 b).1,
        (blankFrom lead (octet + a.length) 0 b).2) := by
  induction a generalizing octet with
  | nil => rfl
  | cons c a ih =>
    rw [List.cons_append, List.length_cons, blankFrom, ih fun d hd ↦ ha d (List.mem_cons_of_mem c hd),
      ha c List.mem_cons_self, List.replicate_succ, Nat.add_assoc, Nat.add_comm 1]
    rfl

section Blanking

variable {letter : Char}

theorem utf8Size_of_isPlain {c : Char} (h : isPlain c) : c.utf8Size = 1 := by
  have hn : c.val ≤ 127 := by
    simp only [isPlain, Char.isAlphanum, Char.isAlpha, Char.isUpper, Char.isLower, Char.isDigit,
      Bool.or_eq_true, Bool.and_eq_true, decide_eq_true_eq] at h
    rcases h with (((((h | h) | h) | rfl) | rfl) | rfl)
    · exact Nat.le_trans h.2 (by decide)
    · exact Nat.le_trans h.2 (by decide)
    · exact Nat.le_trans h.2 (by decide)
    all_goals decide
  exact if_pos hn

theorem length_tokenOf (letter : Char) {index : Nat} (h : index ≤ maxIndex) :
    (tokenOf (leadOf letter) index).length = prefixLength := by
  rw [tokenOf_leadOf]
  simp only [List.length_cons, length_tokenDigits h]
  rfl

theorem blankFrom_token (hl : letter ∈ leadLetters) {index : Nat} (hi : index ≤ maxIndex)
    (octet : Nat) (b : List Char) :
    blankFrom (leadOf letter) octet 0 (tokenOf (leadOf letter) index ++ b) =
      (zeros ++ (blankFrom (leadOf letter) (octet + prefixLength) 0 b).1,
        ⟨.ofNat index, .ofNat octet⟩ :: (blankFrom (leadOf letter) (octet + prefixLength) 0 b).2) := by
  have ht := tokenIndex?_tokenOf letter hi b
  have hplain : ∀ c ∈ tokenOf (leadOf letter) index, c.utf8Size = 1 := fun c hc ↦
    utf8Size_of_isPlain (isPlain_of_mem_tokenOf hl hc)
  have hlen := length_tokenOf letter hi
  rw [tokenOf_leadOf] at ht hplain hlen ⊢
  have hrest := blankFrom_inToken (leadOf letter) b
    (fun c hc ↦ hplain c (List.mem_cons_of_mem '_' hc)) (octet + 1)
  have h8 : (letter :: '$' :: tokenDigits index).length = prefixLength - 1 := by
    rw [List.length_cons] at hlen
    omega
  rw [h8] at hrest
  rw [List.cons_append] at ht ⊢
  rw [blankFrom.eq_def]
  dsimp only
  rw [ht, hplain '_' List.mem_cons_self]
  dsimp only
  rw [hrest, Nat.add_assoc]
  rfl

theorem occurrences_token (letter : Char) (index : Nat) (b : List Char) :
    1 + occurrences (leadOf letter) b ≤
      occurrences (leadOf letter) (tokenOf (leadOf letter) index ++ b) := by
  have hp : (leadOf letter).isPrefixOf (tokenOf (leadOf letter) index ++ b) = true := by
    rw [List.isPrefixOf_iff_prefix, tokenOf, List.append_assoc, List.append_assoc]
    exact List.prefix_append _ _
  rw [tokenOf_leadOf, List.cons_append] at hp ⊢
  rw [occurrences, if_pos hp]
  exact Nat.add_le_add_left (occurrences_le_append _ _ b) 1

theorem countP_le_occurrences (letter : Char) (parts : List Part) :
    parts.countP Part.isPlace ≤
      occurrences (leadOf letter) (spell (tokenOf (leadOf letter)) parts) := by
  induction parts with
  | nil => exact Nat.zero_le _
  | cons p parts ih =>
    cases p with
    | text content =>
      rw [List.countP_cons_of_neg Bool.false_ne_true, spell]
      exact Nat.le_trans ih (occurrences_le_append _ _ _)
    | place index =>
      rw [List.countP_cons_of_pos rfl, spell, Nat.add_comm]
      exact Nat.le_trans (Nat.add_le_add_left ih 1) (occurrences_token _ _ _)

/-- Where the lead occurs in tokens only, blanking turns each token into a slot and leaves the texts
as they are. -/
theorem blankFrom_spell (hl : letter ∈ leadLetters) {parts : List Part}
    (hi : ∀ index, Part.place index ∈ parts → index ≤ maxIndex)
    (h : occurrences (leadOf letter) (spell (tokenOf (leadOf letter)) parts) ≤
      parts.countP Part.isPlace) (octet : Nat) :
    blankFrom (leadOf letter) octet 0 (spell (tokenOf (leadOf letter)) parts) =
      (spell (fun _ ↦ zeros) parts, slotsOf octet parts) := by
  induction parts generalizing octet with
  | nil => rfl
  | cons p parts ih =>
    have hrest : ∀ index, Part.place index ∈ parts → index ≤ maxIndex := fun i hp ↦
      hi i (List.mem_cons_of_mem p hp)
    have hle := countP_le_occurrences letter parts
    cases p with
    | text content =>
      rw [List.countP_cons_of_neg Bool.false_ne_true, spell] at h
      have hmono := occurrences_le_append (leadOf letter) content
        (spell (tokenOf (leadOf letter)) parts)
      rw [spell, blankFrom_text (Nat.le_trans h hle), ih hrest (Nat.le_trans hmono h), spell, slotsOf]
    | place index =>
      rw [List.countP_cons_of_pos rfl, spell] at h
      have htoken := occurrences_token letter index
        (spell (tokenOf (leadOf letter)) parts)
      rw [spell, blankFrom_token hl (hi index List.mem_cons_self), ih hrest (by omega), spell,
        slotsOf]

end Blanking

end Compiled

namespace Linkage

def Leads (l : Linkage) (id : String) : Prop :=
  ∃ specifier, l.target specifier = .ok (.localModule id) ∨
    l.target specifier = .ok (.remoteModule id)

structure Grown (l : Linkage) (old new : List String) : Prop where
  keeps : old <+: new
  nodup : old.Nodup → new.Nodup
  leads : ∀ id ∈ new, id ∈ old ∨ l.Leads id

theorem Grown.refl (l : Linkage) (ids : List String) : l.Grown ids ids :=
  ⟨List.prefix_refl ids, id, fun _ ↦ .inl⟩

theorem Grown.trans {l : Linkage} {a b c : List String} (h : l.Grown a b) (h' : l.Grown b c) :
    l.Grown a c := by
  refine ⟨h.keeps.trans h'.keeps, h'.nodup ∘ h.nodup, ?_⟩
  intro id hid
  rcases h'.leads id hid with hb | hl
  · exact h.leads id hb
  · exact .inr hl

theorem grown_record {l : Linkage} {id : String} (hl : l.Leads id) (ids : List String) :
    l.Grown ids (record ids id).2 ∧ (record ids id).1 < (record ids id).2.length := by
  rw [record]
  cases h : ids.findIdx? (· = id) with
  | some index => exact ⟨.refl l ids, (List.findIdx?_eq_some_iff_getElem.1 h).1⟩
  | none =>
    have hnot : id ∉ ids := fun hm ↦ by simpa using List.findIdx?_eq_none_iff.1 h id hm
    refine ⟨⟨List.prefix_append ids [id], ?_, ?_⟩, by simp⟩
    · intro hn
      exact List.nodup_append.2 ⟨hn, by simp, by
        intro a ha b hb
        rw [List.mem_singleton.1 hb]
        exact fun he ↦ hnot (he ▸ ha)⟩
    · intro d hd
      rcases List.mem_append.1 hd with hd | hd
      · exact .inl hd
      · exact .inr (List.mem_singleton.1 hd ▸ hl)

theorem grown_link {l : Linkage} {old new : List String} {specifier : String} {link : Link}
    (h : l.link old specifier = .ok (link, new)) :
    l.Grown old new ∧ ∀ index path hashed, link = .dependency index path hashed →
      index < new.length := by
  rw [Linkage.link] at h
  cases ht : l.target specifier with
  | error cause => rw [ht] at h; cases h
  | ok target =>
    rw [ht] at h
    cases target with
    | outside text =>
      cases h
      exact ⟨.refl l old, fun _ _ _ h ↦ by cases h⟩
    | localModule id =>
      cases h
      obtain ⟨hg, hi⟩ := grown_record ⟨specifier, .inl ht⟩ old
      exact ⟨hg, fun _ _ _ h ↦ by cases h; exact hi⟩
    | remoteModule id =>
      cases h
      obtain ⟨hg, hi⟩ := grown_record ⟨specifier, .inr ht⟩ old
      exact ⟨hg, fun _ _ _ h ↦ by cases h; exact hi⟩

end Linkage

namespace Compiled

open Digest HashSlot Script.Points

/-- The indices of a linked script's places are those of dependencies, and small enough for
tokens. -/
def Indexed (pieces : List Piece) (n : Nat) : Prop :=
  ∀ index path, Piece.link (.dependency index path true) ∈ pieces → index < n ∧ index ≤ maxIndex

theorem Indexed.text {pieces : List Piece} {n : Nat} (h : Indexed pieces n) (content : List Char) :
    Indexed (.text content :: pieces) n := by
  intro index path hm
  rcases List.mem_cons.1 hm with he | hm
  · cases he
  · exact h index path hm

theorem Indexed.le_maxIndex {pieces : List Piece} {n index : Nat} (h : Indexed pieces n)
    (hp : Part.place index ∈ partsOf pieces) : index ≤ maxIndex := by
  obtain ⟨path, hp⟩ := mem_partsOf hp
  exact (h index path hp).2

theorem linkAll_grown {l : Linkage} {template : Script.Template} {old new : List String}
    {pieces : List Piece} {wrong : List Diagnostic}
    (h : linkAll l old template = (pieces, new, wrong)) :
    l.Grown old new ∧ Indexed pieces new.length := by
  induction template generalizing old new pieces wrong with
  | nil =>
    cases h
    exact ⟨.refl l old, fun _ _ hm ↦ by cases hm⟩
  | cons part rest ih =>
    cases part with
    | text content =>
      rw [linkAll] at h
      cases h
      obtain ⟨hg, hi⟩ := ih rfl
      exact ⟨hg, hi.text content⟩
    | specifier value =>
      rw [linkAll] at h
      cases hl : l.link old value.toText with
      | error cause =>
        rw [hl] at h
        cases h
        exact ih rfl
      | ok r =>
        obtain ⟨link, mid⟩ := r
        obtain ⟨hmid, hindex⟩ := Linkage.grown_link hl
        rw [hl] at h
        obtain ⟨hg, hi⟩ : Linkage.Grown _ mid _ ∧ _ := ih rfl
        cases link with
        | passthrough text =>
          cases h
          refine ⟨hmid.trans hg, ?_⟩
          simp only [passed]
          split
          · exact hi.text _
          · intro index path hm
            rcases List.mem_cons.1 hm with he | hm
            · cases he
            · exact hi index path hm
        | dependency index path isHashed =>
          dsimp only at h
          split at h
          · cases h
            exact ⟨hmid.trans hg, hi⟩
          · next hsmall =>
            cases h
            refine ⟨hmid.trans hg, ?_⟩
            intro i p hm
            rcases List.mem_cons.1 hm with he | hm
            · cases he
              have hlt := hindex index path true rfl
              have hle := hg.keeps.length_le
              simp only [Bool.true_and, decide_eq_true_eq] at hsmall
              omega
            · exact hi i p hm

theorem toNat_ofNat_index {index : Nat} (h : index ≤ maxIndex) :
    (UInt64.ofNat index).toNat = index :=
  UInt64.toNat_ofNat_of_lt' (Nat.lt_of_le_of_lt h (by decide))

/-- The slots of parts lie apart in their order, and hold zeros while nothing is known. -/
theorem slotsOf_spell (before : List Char) {parts : List Part}
    (hi : ∀ index, Part.place index ∈ parts → index ≤ maxIndex)
    (hw : octets (before ++ spell (fun _ ↦ zeros) parts) < UInt64.size) :
    (∀ s ∈ slotsOf (octets before) parts, octets before ≤ s.offset.toNat ∧
      Part.place s.dependency.toNat ∈ parts ∧
      Holds (before ++ spell (fun _ ↦ zeros) parts) s.offset.toNat (filling "")) ∧
      (slotsOf (octets before) parts).Pairwise Apart := by
  induction parts generalizing before with
  | nil => exact ⟨(fun _ hs ↦ by cases hs), .nil⟩
  | cons p parts ih =>
    have hrest : ∀ index, Part.place index ∈ parts → index ≤ maxIndex := fun i hp ↦
      hi i (List.mem_cons_of_mem p hp)
    cases p with
    | text content =>
      rw [spell, ← List.append_assoc] at hw
      have h := ih (before ++ content) hrest hw
      rw [octets_append] at h
      rw [slotsOf, spell, ← List.append_assoc]
      refine ⟨fun s hs ↦ ?_, h.2⟩
      obtain ⟨ho, hp, hh⟩ := h.1 s hs
      exact ⟨by omega, List.mem_cons_of_mem _ hp, hh⟩
    | place index =>
      rw [spell, ← List.append_assoc] at hw
      have h := ih (before ++ zeros) hrest hw
      rw [octets_append, octets_append, show octets zeros = prefixLength from rfl] at hw
      rw [octets_append, show octets zeros = prefixLength from rfl] at h
      have hoffset : (UInt64.ofNat (octets before)).toNat = octets before :=
        UInt64.toNat_ofNat_of_lt' (by omega)
      have hindex := toNat_ofNat_index (hi index List.mem_cons_self)
      rw [slotsOf, spell, ← List.append_assoc]
      refine ⟨fun s hs ↦ ?_, List.pairwise_cons.2 ⟨fun s hs ↦ .inl ?_, h.2⟩⟩
      · rcases List.mem_cons.1 hs with rfl | hs
        · dsimp only
          rw [hoffset, hindex]
          exact ⟨Nat.le_refl _, List.mem_cons_self, before, _, rfl, rfl, rfl, by omega⟩
        · obtain ⟨ho, hp, hh⟩ := h.1 s hs
          exact ⟨by omega, List.mem_cons_of_mem _ hp, hh⟩
      · dsimp only
        rw [hoffset]
        exact (h.1 s hs).1

theorem eq_leadOf_of_freeLead? {texts : List (List Char)} {lead : List Char}
    (h : freeLead? texts = some lead) : ∃ letter ∈ leadLetters, lead = leadOf letter := by
  obtain ⟨letter, hl, rfl⟩ := List.mem_map.1 (List.mem_of_find?_eq_some h)
  exact ⟨letter, hl, rfl⟩

theorem blankFrom_of_writeWith? {pieces : List Piece} {letter : Char} {code : List Char} {n : Nat}
    (hl : letter ∈ leadLetters) (hi : Indexed pieces n)
    (h : writeWith? pieces (leadOf letter) = some code) :
    blankFrom (leadOf letter) 0 0 code =
      (spell (fun _ ↦ zeros) (partsOf pieces), slotsOf 0 (partsOf pieces)) := by
  have hw := written_eq_spell (tokenOf (leadOf letter))
    (fun _ _ hc ↦ isPlain_of_mem_tokenOf hl hc) pieces
  simp only [writeWith?, Option.ite_none_right_eq_some, Option.some_inj] at h
  obtain ⟨hcount, rfl⟩ := h
  rw [hw] at hcount ⊢
  exact blankFrom_spell hl (fun index hp ↦ hi.le_maxIndex hp)
    (Nat.le_of_eq (hcount.trans (countP_partsOf pieces).symm)) 0

theorem assemble?_eq {source lead : List Char} {pieces : List Piece}
    {r : List Char × List HashSlot} {n : Nat} (hlead : ∃ letter ∈ leadLetters, lead = leadOf letter)
    (hi : Indexed pieces n) (h : assemble? source lead pieces = some r) :
    r = (spell (fun _ ↦ zeros) (partsOf pieces), slotsOf 0 (partsOf pieces)) := by
  obtain ⟨letter, hl, rfl⟩ := hlead
  rw [assemble?] at h
  cases hw : writeWith? pieces (leadOf letter) with
  | some code =>
    rw [hw] at h
    exact (Option.some_inj.1 h).symm.trans (blankFrom_of_writeWith? hl hi hw)
  | none =>
    rw [hw] at h
    obtain ⟨lead, hf, h⟩ := Option.bind_eq_some_iff.1 h
    obtain ⟨code, hw, h⟩ := Option.bind_eq_some_iff.1 h
    obtain ⟨letter, hl, rfl⟩ := eq_leadOf_of_freeLead? hf
    exact (Option.some_inj.1 h).symm.trans (blankFrom_of_writeWith? hl hi hw)

/-- Compiled code is linked to dependencies whose hashes are not known; they are different modules
to which the specifiers of its source lead. -/
theorem compile_linked {l : Linkage} {dialect : Dialect} {source : String} {withMap : Bool}
    {c : Compiled} (h : compile l dialect source withMap = .ok c) :
    c.dependencies.Nodup ∧ (∀ id ∈ c.dependencies, l.Leads id) ∧
      Linked c.code (c.dependencies.map fun _ ↦ "") c.slots := by
  rw [compile] at h
  dsimp only at h
  cases hlead : freeLead? [source.toList] with
  | none => rw [hlead] at h; cases h
  | some lead =>
    cases ht : Script.template? dialect source with
    | none => rw [hlead, ht] at h; cases h
    | some template =>
      rw [hlead, ht] at h
      dsimp only at h
      rcases hall : linkAll l [] template with ⟨pieces, dependencies, wrong⟩
      rw [hall] at h
      cases wrong with
      | cons d ds => cases h
      | nil =>
        cases ha : assemble? source.toList lead pieces with
        | none => simp only [ha] at h; cases h
        | some r =>
          simp only [ha] at h
          split at h
          case isFalse => cases h
          next hw =>
          cases h
          obtain ⟨hg, hi⟩ := linkAll_grown hall
          obtain rfl := assemble?_eq (eq_leadOf_of_freeLead? hlead) hi ha
          rw [utf8ByteSize_eq_octets, String.toList_ofList] at hw
          have hs := slotsOf_spell [] (fun index hp ↦ hi.le_maxIndex hp) hw
          refine ⟨hg.nodup List.nodup_nil, fun id hid ↦ ?_, hs.2, fun s hm ↦ ?_⟩
          · rcases hg.leads id hid with hn | hl
            · cases hn
            · exact hl
          · obtain ⟨-, hp, hh⟩ := hs.1 s hm
            obtain ⟨path, hp⟩ := mem_partsOf hp
            refine ⟨"", ?_, ?_⟩
            · rw [List.getElem?_map, List.getElem?_eq_getElem (hi _ path hp).1]
              rfl
            · rwa [String.toList_ofList]

end Compiled
end SiteCompiler
