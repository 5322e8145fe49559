import Mathlib
import SiteCompiler.Environment

namespace SiteCompiler.Environment

inductive Part where
  | text (c : Char)
  | reference (inside : List Char)
deriving DecidableEq, Repr

def parts (cs : List Char) : List Part :=
  match cs with
  | [] => []
  | '$' :: '\x7b' :: rest =>
    match _h : cutBrace? rest with
    | none => .text '$' :: .text '\x7b' :: parts rest
    | some (inside, after) => .reference inside :: parts after
  | c :: rest => .text c :: parts rest
termination_by cs.length
decreasing_by
  · simp only [List.length_cons]
    omega
  · have : after.length < rest.length := cutBrace?_length_lt _h
    simp only [List.length_cons]
    omega
  · simp only [List.length_cons]
    omega

/-- What a part stands for: the character, or the value of the variable, else the default. -/
def Part.text? (env : Environment) : Part → Option (List Char)
  | .text c => some [c]
  | .reference inside => (env.value (cutDefault inside).1 (cutDefault inside).2).toOption

def spelled? (env : Environment) : List Part → Option (List Char)
  | [] => some []
  | p :: rest => do
    let written ← p.text? env
    let after ← spelled? env rest
    return written ++ after

def Part.joins : Part → Bool
  | .text c => c = '$' || c ≠ '\x7b' && isNameChar c
  | .reference _ => true

theorem joins_text_iff {c : Char} :
    (Part.text c).joins = true ↔ c = '$' ∨ c ≠ '\x7b' ∧ isNameChar c = true := by
  rw [Part.joins, Bool.or_eq_true, Bool.and_eq_true, decide_eq_true_eq, decide_eq_true_eq]

/-- A dollar sign that stands for itself is not read with the part behind it. -/
def Apart (p q : Part) : Prop :=
  p = .text '$' → q.joins = false

variable {env : Environment} {c : Char} {cs rest : List Char}

section Equations

theorem parts_unclosed (h : cutBrace? rest = none) :
    parts ('$' :: '\x7b' :: rest) = .text '$' :: .text '\x7b' :: parts rest := by
  rw [parts]
  split
  · rfl
  · next h' => rw [h] at h'; cases h'

theorem parts_closed {inside after : List Char} (h : cutBrace? rest = some (inside, after)) :
    parts ('$' :: '\x7b' :: rest) = .reference inside :: parts after := by
  rw [parts]
  split
  · next h' => rw [h] at h'; cases h'
  · next h' => rw [h] at h'; cases h'; rfl

theorem parts_cons (h : ∀ tail, c = '$' → rest ≠ '\x7b' :: tail) :
    parts (c :: rest) = .text c :: parts rest := by
  rw [parts]
  exact h

theorem parts_nil : parts [] = [] := by
  rw [parts]

theorem expandAll_nil : expandAll env [] = .ok [] := by
  rw [expandAll.eq_def]

theorem expandAll_unclosed (h : cutBrace? rest = none) :
    expandAll env ('$' :: '\x7b' :: rest) = (expandAll env rest).map ('$' :: '\x7b' :: ·) := by
  rw [expandAll.eq_def]
  split
  · next he => cases he
  · next he =>
    cases he
    split
    · cases expandAll env rest <;> rfl
    · next h' => rw [h] at h'; cases h'
  · next he => cases he
  · next hb _ he => cases he; exact (hb rfl).elim
  · next hn _ _ he => cases he; exact (hn _ rfl rfl).elim

theorem expandAll_closed {inside after : List Char} (h : cutBrace? rest = some (inside, after)) :
    expandAll env ('$' :: '\x7b' :: rest) =
      (env.value (cutDefault inside).1 (cutDefault inside).2).bind fun written ↦
        (expandAll env after).map (written ++ ·) := by
  rw [expandAll.eq_def]
  split
  · next he => cases he
  · next he =>
    cases he
    split
    · next h' => rw [h] at h'; cases h'
    · next h' =>
      rw [h] at h'
      cases h'
      dsimp only
      cases env.value (cutDefault inside).1 (cutDefault inside).2 with
      | error cause => rfl
      | ok written => cases expandAll env after <;> rfl
  · next he => cases he
  · next hb _ he => cases he; exact (hb rfl).elim
  · next hn _ _ he => cases he; exact (hn _ rfl rfl).elim

theorem expandAll_dollars :
    expandAll env ('$' :: '$' :: rest) = (expandAll env rest).map ('$' :: ·) := by
  rw [expandAll.eq_def]
  split
  · next he => cases he
  · next he => cases he
  · next he => cases he; cases expandAll env rest <;> rfl
  · next hd he => cases he; exact (hd rfl).elim
  · next _ hn _ he => cases he; exact (hn _ rfl rfl).elim

theorem expandAll_name (hb : c ≠ '\x7b') (hd : c ≠ '$') (hc : isNameChar c = true) :
    expandAll env ('$' :: c :: rest) =
      (env.value (c :: rest.takeWhile isNameChar) none).bind fun written ↦
        (expandAll env (rest.dropWhile isNameChar)).map (written ++ ·) := by
  rw [expandAll.eq_def]
  split
  · next he => cases he
  · next he => cases he; exact (hb rfl).elim
  · next he => cases he; exact (hd rfl).elim
  · next he =>
    cases he
    rw [if_pos hc]
    cases env.value (c :: rest.takeWhile isNameChar) none with
    | error cause => rfl
    | ok written => cases expandAll env (rest.dropWhile isNameChar) <;> rfl
  · next hn he => cases he; exact (hn _ _ rfl rfl).elim

theorem expandAll_dollar (hb : c ≠ '\x7b') (hd : c ≠ '$') (hc : isNameChar c = false) :
    expandAll env ('$' :: c :: rest) = (expandAll env (c :: rest)).map ('$' :: ·) := by
  rw [expandAll.eq_def]
  split
  · next he => cases he
  · next he => cases he; exact (hb rfl).elim
  · next he => cases he; exact (hd rfl).elim
  · next he =>
    cases he
    rw [if_neg (Bool.eq_false_iff.1 hc)]
    cases expandAll env (c :: rest) <;> rfl
  · next hn he => cases he; exact (hn _ _ rfl rfl).elim

theorem expandAll_cons (h : c = '$' → rest = []) :
    expandAll env (c :: rest) = (expandAll env rest).map (c :: ·) := by
  rw [expandAll.eq_def]
  split
  · next he => cases he
  · next he => cases he; cases h rfl
  · next he => cases he; cases h rfl
  · next he => cases he; cases h rfl
  · next he => cases he; cases expandAll env rest <;> rfl

theorem spelled?_text (c : Char) (ps : List Part) :
    spelled? env (.text c :: ps) = (spelled? env ps).map (c :: ·) := by
  rw [spelled?]
  cases spelled? env ps <;> rfl

theorem toOption_map (x : Except Unresolved (List Char)) (f : List Char → List Char) :
    (x.map f).toOption = x.toOption.map f := by
  cases x <;> rfl

theorem toOption_bind_map (x y : Except Unresolved (List Char)) :
    (x.bind fun written ↦ y.map (written ++ ·)).toOption =
      x.toOption.bind fun written ↦ y.toOption.map (written ++ ·) := by
  cases x with
  | error cause => rfl
  | ok written => exact toOption_map y _

theorem spelled?_reference (inside : List Char) (ps : List Part) :
    spelled? env (.reference inside :: ps) =
      (env.value (cutDefault inside).1 (cutDefault inside).2).toOption.bind fun written ↦
        (spelled? env ps).map (written ++ ·) := by
  rw [spelled?, Part.text?]
  cases (env.value (cutDefault inside).1 (cutDefault inside).2).toOption with
  | none => rfl
  | some written => cases spelled? env ps <;> rfl

end Equations

theorem head_ne {d : Char} (hd : d ≠ '\x7b') (tail : List Char) : d :: rest ≠ '\x7b' :: tail :=
  fun he ↦ hd (List.cons.inj he).1

theorem exists_parts_dollar (rest : List Char) :
    ∃ p ps, parts ('$' :: rest) = p :: ps ∧ p.joins = true := by
  by_cases hb : ∃ tail, rest = '\x7b' :: tail
  · obtain ⟨tail, rfl⟩ := hb
    cases hcut : cutBrace? tail with
    | none => exact ⟨_, _, parts_unclosed hcut, rfl⟩
    | some cut => exact ⟨_, _, parts_closed hcut, rfl⟩
  · exact ⟨_, _, parts_cons fun tail _ he ↦ hb ⟨tail, he⟩, rfl⟩

theorem not_isChain_dollars : ¬ (parts ('$' :: '$' :: rest)).IsChain Apart := by
  obtain ⟨p, ps, hp, hj⟩ := exists_parts_dollar rest
  rw [parts_cons fun _ _ ↦ head_ne (by decide) _, hp]
  intro h
  exact Bool.eq_false_iff.1 (h.rel rfl) hj

theorem eq_nil_of_forall (h : ∀ d tail, c = '$' → rest = d :: tail → False) : c = '$' → rest = [] := by
  intro hc
  cases rest with
  | nil => rfl
  | cons d tail => exact (h d tail hc rfl).elim

/-- Where dollar signs that stand for themselves are apart, a text stands for what its parts do. -/
theorem toOption_expandAll (env : Environment) (h : (parts cs).IsChain Apart) :
    (expandAll env cs).toOption = spelled? env (parts cs) := by
  induction cs using expandAll.induct with
  | case1 => rw [expandAll_nil, parts_nil]; rfl
  | case2 rest hcut ih =>
    rw [parts_unclosed hcut] at h ⊢
    rw [expandAll_unclosed hcut, toOption_map, ih h.tail.tail, spelled?_text, spelled?_text,
      Option.map_map]
    rfl
  | case3 rest inside after hcut name default hdef ih =>
    rw [parts_closed hcut] at h ⊢
    rw [expandAll_closed hcut, toOption_bind_map, ih h.tail, spelled?_reference]
  | case4 rest ih => exact (not_isChain_dollars h).elim
  | case5 c rest hb hd hc ih =>
    rw [parts_cons fun _ _ ↦ head_ne hb _, parts_cons fun _ he ↦ (hd he).elim] at h
    exact (Bool.eq_false_iff.1 (h.rel rfl) (joins_text_iff.2 (.inr ⟨hb, hc⟩))).elim
  | case6 c rest hb hd hc ih =>
    rw [parts_cons fun _ _ ↦ head_ne hb _] at h ⊢
    rw [expandAll_dollar hb hd (Bool.eq_false_iff.2 hc), toOption_map, ih h.tail, spelled?_text]
  | case7 c rest h1 h2 hn ih =>
    rw [parts_cons fun tail hc he ↦ hn _ tail hc he] at h ⊢
    rw [expandAll_cons (eq_nil_of_forall hn), toOption_map, ih h.tail, spelled?_text]

def Dotted (env : Environment) (cs : List Char) : Prop :=
  ∀ name : List Char, name.Sublist cs → env.text? (.ofList name) = .ok "."

theorem Dotted.mono {cs' : List Char} (h : Dotted env cs) (hs : cs'.Sublist cs) : Dotted env cs' :=
  fun name hn ↦ h name (hn.trans hs)

theorem Dotted.value {name : List Char} (h : Dotted env cs) (hn : name.Sublist cs)
    (default : Option (List Char)) : env.value name default = .ok ['.'] := by
  unfold Environment.value
  rw [h name hn]
  rfl

theorem cutBrace?_eq_some {inside after : List Char} (h : cutBrace? rest = some (inside, after)) :
    rest = inside ++ '\x7d' :: after := by
  induction rest generalizing inside with
  | nil => cases h
  | cons c rest ih =>
    rw [cutBrace?] at h
    split at h
    · next hc => cases h; rw [hc]; rfl
    · obtain ⟨cut, hcut, he⟩ := Option.map_eq_some_iff.1 h
      cases he
      rw [ih hcut]
      rfl

theorem cutMark_sublist (cs : List Char) : (cutMark cs).1.Sublist cs := by
  induction cs using cutMark.induct with
  | case1 => exact List.Sublist.refl _
  | case2 rest => exact List.nil_sublist _
  | case3 c rest hn name default hcut ih =>
    rw [cutMark]
    · exact ih.cons_cons c
    · exact hn

theorem cutDefault_sublist (inside : List Char) : (cutDefault inside).1.Sublist inside := by
  rw [cutDefault]
  split
  · exact List.Sublist.refl _
  · exact cutMark_sublist inside

theorem Dotted.value_reference {inside after : List Char} (h : Dotted env ('$' :: '\x7b' :: rest))
    (hcut : cutBrace? rest = some (inside, after)) :
    env.value (cutDefault inside).1 (cutDefault inside).2 = .ok ['.'] := by
  have hrest : inside.Sublist rest := by
    rw [cutBrace?_eq_some hcut]
    exact List.sublist_append_left _ _
  exact h.value ((((cutDefault_sublist inside).trans hrest).cons _).cons _) _

theorem Dotted.after {inside after : List Char} (h : Dotted env ('$' :: '\x7b' :: rest))
    (hcut : cutBrace? rest = some (inside, after)) : Dotted env after := by
  have hrest : after.Sublist rest := by
    rw [cutBrace?_eq_some hcut]
    exact (List.sublist_cons_self _ after).trans (List.sublist_append_right inside _)
  exact h.mono ((hrest.cons _).cons _)

theorem Dotted.value_name (h : Dotted env ('$' :: c :: rest)) :
    env.value (c :: rest.takeWhile isNameChar) none = .ok ['.'] :=
  h.value (((List.takeWhile_sublist _).cons_cons c).cons _) _

section Difference

variable {written other : List Char}

theorem exists_of_map_eq_ok {x : Except Unresolved (List Char)} {f : List Char → List Char}
    (h : x.map f = .ok written) : ∃ rest, x = .ok rest ∧ f rest = written := by
  cases x with
  | error cause => cases h
  | ok rest => exact ⟨rest, rfl, Except.ok.inj h⟩

theorem exists_of_spelled?_text {ps : List Part} (h : spelled? env (.text c :: ps) = some written) :
    ∃ rest, spelled? env ps = some rest ∧ c :: rest = written :=
  Option.map_eq_some_iff.1 (spelled?_text c ps ▸ h)

theorem head?_dollars (k : ℕ) (cs : List Char) :
    (List.replicate k '$' ++ '$' :: cs).head? = some '$' := by
  cases k <;> rfl

/-- In an environment of dots, what a text expands to is not what its parts stand for with dollar
signs before it. -/
theorem Dotted.expandAll_ne (h : Dotted env cs) (hw : expandAll env cs = .ok written)
    (ho : spelled? env (parts cs) = some other) (k : ℕ) :
    written ≠ '$' :: (List.replicate k '$' ++ other) := by
  induction cs using expandAll.induct generalizing k written other with
  | case1 =>
    rw [expandAll_nil] at hw
    cases hw
    exact (List.cons_ne_nil _ _).symm
  | case2 rest hcut ih =>
    rw [expandAll_unclosed hcut] at hw
    rw [parts_unclosed hcut] at ho
    obtain ⟨w, -, rfl⟩ := exists_of_map_eq_ok hw
    obtain ⟨o, -, rfl⟩ := exists_of_spelled?_text ho
    intro he
    have hhead := congrArg List.head? (List.cons.inj he).2
    rw [head?_dollars] at hhead
    cases hhead
  | case3 rest inside after hcut name default hdef ih =>
    rw [expandAll_closed hcut, h.value_reference hcut] at hw
    obtain ⟨w, -, rfl⟩ := exists_of_map_eq_ok hw
    intro he
    cases (List.cons.inj he).1
  | case4 rest ih =>
    rw [expandAll_dollars] at hw
    rw [parts_cons fun _ _ ↦ head_ne (by decide) _] at ho
    obtain ⟨w, hrest, rfl⟩ := exists_of_map_eq_ok hw
    obtain ⟨o, hparts, rfl⟩ := exists_of_spelled?_text ho
    intro he
    replace he := (List.cons.inj he).2
    by_cases hb : ∃ tail, rest = '\x7b' :: tail
    · obtain ⟨tail, rfl⟩ := hb
      rw [expandAll_cons fun hc ↦ absurd hc (by decide)] at hrest
      obtain ⟨v, -, rfl⟩ := exists_of_map_eq_ok hrest
      have hhead := congrArg List.head? he
      rw [head?_dollars] at hhead
      cases hhead
    · rw [parts_cons fun tail _ he ↦ hb ⟨tail, he⟩] at hparts
      obtain ⟨o', hafter, rfl⟩ := exists_of_spelled?_text hparts
      refine ih (h.mono ((List.sublist_cons_self _ _).cons _)) hrest hafter (k + 1) ?_
      rw [he, List.replicate_succ', List.append_assoc, ← List.cons_append, ← List.replicate_succ,
        List.replicate_succ', List.append_assoc]
      rfl
  | case5 c rest hb hd hc ih =>
    rw [expandAll_name hb hd hc, h.value_name] at hw
    obtain ⟨w, -, rfl⟩ := exists_of_map_eq_ok hw
    intro he
    cases (List.cons.inj he).1
  | case6 c rest hb hd hc ih =>
    rw [expandAll_dollar hb hd (Bool.eq_false_iff.2 hc)] at hw
    rw [parts_cons fun _ _ ↦ head_ne hb _] at ho
    obtain ⟨w, hrest, rfl⟩ := exists_of_map_eq_ok hw
    obtain ⟨o, -, rfl⟩ := exists_of_spelled?_text ho
    rw [expandAll_cons fun hc ↦ (hd hc).elim] at hrest
    obtain ⟨v, -, rfl⟩ := exists_of_map_eq_ok hrest
    intro he
    have hhead := congrArg List.head? (List.cons.inj he).2
    rw [head?_dollars] at hhead
    exact hd (Option.some.inj hhead)
  | case7 c rest h1 h2 hn ih =>
    rw [expandAll_cons (eq_nil_of_forall hn)] at hw
    rw [parts_cons fun tail hc he ↦ hn _ tail hc he] at ho
    obtain ⟨w, hrest, rfl⟩ := exists_of_map_eq_ok hw
    obtain ⟨o, -, rfl⟩ := exists_of_spelled?_text ho
    intro he
    obtain ⟨hc, he⟩ := List.cons.inj he
    rw [eq_nil_of_forall hn hc, expandAll_nil] at hrest
    cases hrest
    cases k <;> cases he

theorem Dotted.expandAll_dollars_ne (h : Dotted env ('$' :: '$' :: rest))
    (hw : expandAll env ('$' :: '$' :: rest) = .ok written) :
    spelled? env (parts ('$' :: '$' :: rest)) ≠ some written := by
  intro ho
  rw [expandAll_dollars] at hw
  rw [parts_cons fun _ _ ↦ head_ne (by decide) _] at ho
  obtain ⟨w, hrest, rfl⟩ := exists_of_map_eq_ok hw
  obtain ⟨o, hparts, he⟩ := exists_of_spelled?_text ho
  obtain rfl := (List.cons.inj he).2
  by_cases hb : ∃ tail, rest = '\x7b' :: tail
  · obtain ⟨tail, rfl⟩ := hb
    rw [expandAll_cons fun hc ↦ absurd hc (by decide)] at hrest
    obtain ⟨v, -, rfl⟩ := exists_of_map_eq_ok hrest
    have htail : Dotted env ('$' :: '\x7b' :: tail) := h.mono (List.sublist_cons_self _ _)
    cases hcut : cutBrace? tail with
    | none =>
      rw [parts_unclosed hcut] at hparts
      obtain ⟨o, -, he⟩ := exists_of_spelled?_text hparts
      cases (List.cons.inj he).1
    | some cut =>
      rw [parts_closed hcut, spelled?_reference, htail.value_reference hcut] at hparts
      obtain ⟨o, -, he⟩ := Option.map_eq_some_iff.1 hparts
      cases (List.cons.inj he).1
  · rw [parts_cons fun tail _ he ↦ hb ⟨tail, he⟩] at hparts
    obtain ⟨o, hafter, rfl⟩ := exists_of_spelled?_text hparts
    exact (h.mono ((List.sublist_cons_self _ _).cons _)).expandAll_ne hrest hafter 0 rfl

/-- Where a text expands to what its parts stand for in an environment of dots, its dollar signs that
stand for themselves are apart. -/
theorem Dotted.isChain (h : Dotted env cs) (hw : expandAll env cs = .ok written)
    (ho : spelled? env (parts cs) = some written) : (parts cs).IsChain Apart := by
  induction cs using expandAll.induct generalizing written with
  | case1 => rw [parts_nil]; exact .nil
  | case2 rest hcut ih =>
    rw [expandAll_unclosed hcut] at hw
    rw [parts_unclosed hcut] at ho ⊢
    obtain ⟨w, hrest, rfl⟩ := exists_of_map_eq_ok hw
    obtain ⟨o, hparts, he⟩ := exists_of_spelled?_text ho
    obtain ⟨o', hafter, rfl⟩ := exists_of_spelled?_text hparts
    obtain rfl := (List.cons.inj (List.cons.inj he).2).2
    have hbrace : (Part.text '\x7b').joins = false := rfl
    exact .cons_cons (fun _ ↦ hbrace) (List.isChain_cons.2
      ⟨fun p _ hp ↦ (by cases hp), ih (h.mono ((List.sublist_cons_self _ _).cons _)) hrest hafter⟩)
  | case3 rest inside after hcut name default hdef ih =>
    rw [expandAll_closed hcut, h.value_reference hcut] at hw
    rw [parts_closed hcut] at ho ⊢
    rw [spelled?_reference, h.value_reference hcut] at ho
    obtain ⟨w, hrest, rfl⟩ := exists_of_map_eq_ok hw
    obtain ⟨o, hparts, he⟩ := Option.map_eq_some_iff.1 ho
    obtain rfl := (List.cons.inj he).2
    exact List.isChain_cons.2 ⟨fun p _ hp ↦ (by cases hp), ih (h.after hcut) hrest hparts⟩
  | case4 rest ih => exact (h.expandAll_dollars_ne hw ho).elim
  | case5 c rest hb hd hc ih =>
    rw [expandAll_name hb hd hc, h.value_name] at hw
    rw [parts_cons fun _ _ ↦ head_ne hb _] at ho
    obtain ⟨w, -, rfl⟩ := exists_of_map_eq_ok hw
    obtain ⟨o, -, he⟩ := exists_of_spelled?_text ho
    cases (List.cons.inj he).1
  | case6 c rest hb hd hc ih =>
    rw [expandAll_dollar hb hd (Bool.eq_false_iff.2 hc)] at hw
    rw [parts_cons fun _ _ ↦ head_ne hb _] at ho ⊢
    obtain ⟨w, hrest, rfl⟩ := exists_of_map_eq_ok hw
    obtain ⟨o, hparts, he⟩ := exists_of_spelled?_text ho
    obtain rfl := (List.cons.inj he).2
    have hchain := ih (h.mono (List.sublist_cons_self _ _)) hrest hparts
    rw [parts_cons fun _ he ↦ (hd he).elim] at hchain ⊢
    refine .cons_cons (fun _ ↦ Bool.eq_false_iff.2 fun hj ↦ ?_) hchain
    exact (joins_text_iff.1 hj).elim hd fun hname ↦ hc hname.2
  | case7 c rest h1 h2 hn ih =>
    rw [expandAll_cons (eq_nil_of_forall hn)] at hw
    rw [parts_cons fun tail hc he ↦ hn _ tail hc he] at ho ⊢
    obtain ⟨w, hrest, rfl⟩ := exists_of_map_eq_ok hw
    obtain ⟨o, hparts, he⟩ := exists_of_spelled?_text ho
    obtain rfl := (List.cons.inj he).2
    refine List.isChain_cons.2
      ⟨fun p hp hc ↦ ?_, ih (h.mono (List.sublist_cons_self _ _)) hrest hparts⟩
    rw [eq_nil_of_forall hn (Part.text.inj hc), parts_nil] at hp
    cases hp

end Difference

section Dots

/-- An environment in which every name that the text could mention has a dot for its value. -/
def dots (cs : List Char) : Environment :=
  cs.sublists.map fun name ↦ (.ofList name, ⟨#[46]⟩)

theorem lookup_map_const {names : List (List Char)} {name : List Char} (value : ByteArray)
    (h : name ∈ names) :
    (names.map fun name ↦ (String.ofList name, value)).lookup (.ofList name) = some value := by
  induction names with
  | nil => cases h
  | cons first names ih =>
    rw [List.map_cons, List.lookup_cons]
    by_cases he : String.ofList name = String.ofList first
    · rw [he, beq_self_eq_true]
    · rw [beq_eq_false_iff_ne.2 he]
      exact ih ((List.mem_cons.1 h).resolve_left fun hf ↦ he (congrArg String.ofList hf))

theorem dotted_dots (cs : List Char) : Dotted (dots cs) cs := by
  intro name hn
  rw [text?, dots, lookup_map_const _ (List.mem_sublists.2 hn)]
  rfl

end Dots

theorem exists_spelled? {ps : List Part} (h : ∀ p ∈ ps, (p.text? env).isSome = true) :
    ∃ written, spelled? env ps = some written := by
  induction ps with
  | nil => exact ⟨[], rfl⟩
  | cons p ps ih =>
    obtain ⟨hp, hps⟩ := List.forall_mem_cons.1 h
    obtain ⟨first, hf⟩ := Option.isSome_iff_exists.1 hp
    obtain ⟨rest, hr⟩ := ih hps
    exact ⟨first ++ rest, by rw [spelled?, hf, hr]; rfl⟩

theorem sublist_of_mem_parts {inside : List Char} (h : .reference inside ∈ parts cs) :
    inside.Sublist cs := by
  induction cs using parts.induct with
  | case1 => rw [parts_nil] at h; cases h
  | case2 rest hcut ih =>
    rw [parts_unclosed hcut] at h
    rcases List.mem_cons.1 h with h | h
    · cases h
    · rcases List.mem_cons.1 h with h | h
      · cases h
      · exact ((ih h).cons _).cons _
  | case3 rest inside' after hcut ih =>
    rw [parts_closed hcut] at h
    have hrest := cutBrace?_eq_some hcut
    rcases List.mem_cons.1 h with h | h
    · cases h
      rw [hrest]
      exact ((List.sublist_append_left _ _).cons _).cons _
    · rw [hrest]
      exact ((((ih h).cons _).trans (List.sublist_append_right _ _)).cons _).cons _
  | case4 c rest hn ih =>
    rw [parts_cons hn] at h
    rcases List.mem_cons.1 h with h | h
    · cases h
    · exact (ih h).cons _

theorem Dotted.isSome_text? (h : Dotted env cs) {p : Part} (hp : p ∈ parts cs) :
    (p.text? env).isSome = true := by
  cases p with
  | text c => rfl
  | reference inside =>
    rw [Part.text?, h.value ((cutDefault_sublist inside).trans (sublist_of_mem_parts hp))]
    rfl

theorem spelled?_of_not_occursIn (h : Text.occursIn ['$', '\x7b'] cs = false) :
    spelled? env (parts cs) = some cs := by
  induction cs with
  | nil => rw [parts_nil]; rfl
  | cons c cs ih =>
    obtain ⟨hhead, hrest⟩ := Bool.or_eq_false_iff.1 h
    have hne : ∀ tail, c = '$' → cs ≠ '\x7b' :: tail := by
      rintro tail rfl rfl
      cases hhead
    rw [parts_cons hne, spelled?_text, ih hrest]
    rfl

/-- A text expands to what its parts stand for, wherever all of them stand for something, just if it
has no reference in braces or no dollar sign that stands for itself is before another one, a reference
or a name. -/
theorem expand_eq_spelled?_iff (text : String) :
    (∀ env : Environment, (∀ p ∈ parts text.toList, (p.text? env).isSome = true) →
      ∃ written, spelled? env (parts text.toList) = some written ∧
        env.expand text = .ok (.ofList written)) ↔
      Text.contains text "$\x7b" = false ∨ (parts text.toList).IsChain Apart := by
  constructor
  · intro h
    refine Decidable.or_iff_not_imp_left.2 fun hc ↦ ?_
    replace hc : Text.contains text "$\x7b" = true := Bool.eq_true_of_not_eq_false hc
    have hd := dotted_dots text.toList
    obtain ⟨written, ho, hw⟩ := h _ fun p hp ↦ hd.isSome_text? hp
    rw [expand, if_pos hc] at hw
    cases hx : expandAll (dots text.toList) text.toList with
    | error cause => rw [hx] at hw; cases hw
    | ok expansion =>
      rw [hx] at hw
      have he : expansion = written := String.ofList_injective (Except.ok.inj hw)
      exact hd.isChain (he ▸ hx) ho
  · intro h env hall
    obtain ⟨written, ho⟩ := exists_spelled? hall
    refine ⟨written, ho, ?_⟩
    rw [expand]
    by_cases hc : Text.contains text "$\x7b" = true
    · have hchain := h.resolve_left (by rw [hc]; exact Bool.noConfusion)
      have he := toOption_expandAll env hchain
      rw [ho] at he
      rw [if_pos hc]
      cases hx : expandAll env text.toList with
      | error cause => rw [hx] at he; cases he
      | ok expansion => rw [hx] at he; cases he; rfl
    · have he : spelled? env (parts text.toList) = some text.toList :=
        spelled?_of_not_occursIn (Bool.eq_false_of_not_eq_true hc)
      rw [he] at ho
      cases ho
      rw [if_neg hc, String.ofList_toList]

end SiteCompiler.Environment
