import SiteCompiler.Proofs.Json.Values
import SiteCompiler.Shell

namespace SiteCompiler.Shell

open Json Json.Document

def guardSlashes : List Char → List Char
  | [] => []
  | c :: rest => (if c = '<' ∧ rest.head? = some '/' then ['<', '\\'] else [c]) ++ guardSlashes rest

theorem guardSlashes_cons_of_ne {c : Char} (h : c ≠ '<') (rest : List Char) :
    guardSlashes (c :: rest) = c :: guardSlashes rest := by
  rw [guardSlashes, if_neg fun hc ↦ h hc.1]
  rfl

theorem head?_guardSlashes (cs : List Char) : (guardSlashes cs).head? = cs.head? := by
  cases cs with
  | nil => rfl
  | cons c rest =>
    rw [guardSlashes]
    split
    · next h => rw [h.1]; rfl
    · rfl

theorem replaceFrom_eq_guardSlashes (cs : List Char) :
    Text.replaceFrom ['<', '/'] ['<', '\\', '/'] 0 cs = guardSlashes cs := by
  match cs with
  | [] => rfl
  | [c] =>
    have hstart : ¬ ['<', '/'].isPrefixOf [c] = true := by simp
    rw [Text.replaceFrom, if_neg hstart, guardSlashes, if_neg (by simp)]
    rfl
  | c :: d :: rest =>
    have hstart : ['<', '/'].isPrefixOf (c :: d :: rest) = true ↔ c = '<' ∧ d = '/' := by
      simp only [List.isPrefixOf, Bool.and_true, Bool.and_eq_true, beq_iff_eq]
      exact and_congr eq_comm eq_comm
    have hhead : (d :: rest).head? = some '/' ↔ d = '/' := by simp
    rw [Text.replaceFrom, guardSlashes]
    simp only [hstart, hhead]
    split
    · next h =>
      have hrest := replaceFrom_eq_guardSlashes rest
      rw [h.2, guardSlashes_cons_of_ne (by decide), ← hrest]
      rfl
    · rw [replaceFrom_eq_guardSlashes (d :: rest)]
      rfl

theorem occursIn_guardSlashes (cs : List Char) :
    Text.occursIn ['<', '/'] (guardSlashes cs) = false := by
  induction cs with
  | nil => rfl
  | cons c rest ih =>
    rw [guardSlashes]
    split
    · simp [Text.occursIn, List.isPrefixOf, ih]
    · next h =>
      have hhead := head?_guardSlashes rest
      cases hrest : guardSlashes rest with
      | nil => simp [Text.occursIn, List.isPrefixOf]
      | cons d tail =>
        rw [hrest] at hhead ih
        have hne : ¬ (c = '<' ∧ d = '/') := fun he ↦ h ⟨he.1, by rw [← hhead, he.2]; rfl⟩
        rw [List.singleton_append, Text.occursIn, ih, Bool.or_false, Bool.eq_false_iff]
        intro hstart
        simp only [List.isPrefixOf, Bool.and_true, Bool.and_eq_true, beq_iff_eq] at hstart
        exact hne ⟨hstart.1.symm, hstart.2.symm⟩

theorem guardSlashes_append (a : List Char) {b : List Char} (h : b.head? ≠ some '/') :
    guardSlashes (a ++ b) = guardSlashes a ++ guardSlashes b := by
  induction a with
  | nil => rfl
  | cons c a ih =>
    rw [List.cons_append, guardSlashes, guardSlashes, ih, List.append_assoc]
    cases a with
    | nil => simp [h]
    | cons d a => rfl

theorem guardSlashes_append_cons {c : Char} (h : c ≠ '<' ∧ c ≠ '/') (a b : List Char) :
    guardSlashes (a ++ c :: b) = guardSlashes a ++ c :: guardSlashes b := by
  have hhead : (c :: b).head? ≠ some '/' := fun hc ↦ h.2 (Option.some_inj.1 hc)
  rw [guardSlashes_append a hhead, guardSlashes_cons_of_ne h.1]

theorem guardSlashes_append_of_not_mem {a : List Char} (h : '<' ∉ a) (b : List Char) :
    guardSlashes (a ++ b) = a ++ guardSlashes b := by
  induction a with
  | nil => rfl
  | cons c a ih =>
    rw [List.cons_append, guardSlashes_cons_of_ne fun hc ↦ h (hc ▸ List.mem_cons_self),
      ih fun hm ↦ h (List.mem_cons_of_mem c hm)]
    rfl

section Strings

variable {cs rest : List Char}

theorem not_mem_escapeChar {c : Char} (h : c ≠ '<') : '<' ∉ escapeChar c := by
  have hdigit : ∀ n < 0x20, '<' ∉ [hexDigit (n / 16), hexDigit (n % 16)] := by decide
  unfold escapeChar
  split
  case h_8 =>
    split
    · next hc => simpa using hdigit c.toNat hc
    · simpa using h.symm
  all_goals decide

theorem readString_guardSlashes (cs rest : List Char) :
    readString (guardSlashes (cs.flatMap escapeChar) ++ '"' :: rest) =
      some (cs.map Piece.ofChar, rest) := by
  induction cs with
  | nil => rw [List.flatMap_nil, guardSlashes, List.nil_append, readString]; rfl
  | cons c cs ih =>
    have hread : readString (escapeChar c ++ (guardSlashes (cs.flatMap escapeChar) ++ '"' :: rest)) =
        some ((c :: cs).map Piece.ofChar, rest) := by
      rw [readString_escapeChar, ih]
      rfl
    by_cases hc : c = '<'
    · subst hc
      change readString (guardSlashes ('<' :: cs.flatMap escapeChar) ++ _) = _
      rw [guardSlashes]
      split
      · next hslash =>
        -- The backslash turns the slash into an escape of itself.
        obtain ⟨tail, htail⟩ := List.head?_eq_some_iff.1 hslash.2
        rw [htail, guardSlashes_cons_of_ne (by decide)] at hread ih ⊢
        have hescape : readString ('/' :: (guardSlashes tail ++ '"' :: rest)) =
            readString ('\\' :: '/' :: (guardSlashes tail ++ '"' :: rest)) := by
          rw [readString_short (c := '/') rfl (by decide),
            readString_plain (by decide) (by decide) (by decide)]
        have hplain (cs : List Char) : readString ('<' :: cs) =
            (readString cs).map fun p ↦ (.char '<' :: p.1, p.2) :=
          readString_plain (by decide) (by decide) (by decide) cs
        change readString ('<' :: '\\' :: '/' :: (guardSlashes tail ++ '"' :: rest)) = _
        rw [hplain, ← hescape, ← hplain]
        exact hread
      · exact hread
    · rw [List.flatMap_cons, guardSlashes_append_of_not_mem (not_mem_escapeChar hc),
        List.append_assoc]
      exact hread

end Strings

def guardedLayout : Layout :=
  { Layout.compact with
    body := fun s ↦ guardSlashes (s.toList.flatMap escapeChar)
    readString_body := fun s rest ↦ readString_guardSlashes s.toList rest }

@[simp] theorem newline_guardedLayout (depth : Nat) : guardedLayout.newline depth = [] := rfl

@[simp] theorem gap_guardedLayout : guardedLayout.gap = [] := rfl

theorem guardSlashes_quote (s : String) : guardSlashes (quote s) = guardedLayout.quote s := by
  change guardSlashes ('"' :: (s.toList.flatMap escapeChar ++ ['"'])) = _
  rw [guardSlashes_cons_of_ne (by decide), guardSlashes_append_cons (by decide)]
  rfl

theorem not_mem_intDigits (i : Int) : '<' ∉ intDigits i := by
  have hdigits : ∀ n, '<' ∉ natDigits n := fun n hm ↦ absurd (natDigits_isDigit hm) (by decide)
  cases i with
  | ofNat n => exact hdigits n
  | negSucc n => exact List.not_mem_cons_of_ne_of_not_mem (by decide) (hdigits (n + 1))

mutual

theorem guardSlashes_compactChars {v : Json} (hv : v.isExact = true) (depth : Nat) :
    guardSlashes (compactChars v) = guardedLayout.chars depth v := by
  match v with
  | .null | .bool true | .bool false => rfl
  | .number (.integer i) =>
    have h := guardSlashes_append_of_not_mem (not_mem_intDigits i) []
    rw [List.append_nil] at h
    exact h.trans (List.append_nil _)
  | .number (.float _) => simp [isExact] at hv
  | .string s => exact guardSlashes_quote s
  | .array [] | .object [] => rfl
  | .array (v :: vs) =>
    have h : guardSlashes (compactElements (v :: vs)) =
        guardedLayout.elements (depth + 1) (v :: vs) := guardSlashes_compactElements hv (depth + 1)
    rw [compactChars, List.cons_append, guardSlashes_cons_of_ne (by decide),
      guardSlashes_append_cons (by decide), h]
    simp [Layout.chars, guardSlashes]
  | .object (m :: ms) =>
    have h : guardSlashes (compactMembers (m :: ms)) =
        guardedLayout.members (depth + 1) (m :: ms) := guardSlashes_compactMembers hv (depth + 1)
    rw [compactChars, List.cons_append, guardSlashes_cons_of_ne (by decide),
      guardSlashes_append_cons (by decide), h]
    simp [Layout.chars, guardSlashes]

theorem guardSlashes_compactElements {vs : List Json} (hv : areExact vs = true) (depth : Nat) :
    guardSlashes (compactElements vs) = guardedLayout.elements depth vs := by
  match vs with
  | [] => rfl
  | [v] =>
    have hv : v.isExact = true := by simpa [areExact] using hv
    exact guardSlashes_compactChars hv depth
  | v :: w :: vs =>
    have hv : v.isExact = true ∧ areExact (w :: vs) = true := by simpa [areExact] using hv
    rw [compactElements, guardSlashes_append_cons (by decide),
      guardSlashes_compactChars hv.1 depth, guardSlashes_compactElements hv.2 depth]
    simp [Layout.elements]

theorem guardSlashes_compactMembers {ms : List (String × Json)} (hv : membersExact ms = true)
    (depth : Nat) : guardSlashes (compactMembers ms) = guardedLayout.members depth ms := by
  match ms with
  | [] => rfl
  | [(k, v)] =>
    have hv : v.isExact = true := by simpa [membersExact] using hv
    rw [compactMembers, guardSlashes_append_cons (by decide), guardSlashes_quote,
      guardSlashes_compactChars hv depth]
    simp [Layout.members]
  | (k, v) :: m :: ms =>
    have hv : v.isExact = true ∧ membersExact (m :: ms) = true := by simpa [membersExact] using hv
    rw [compactMembers, List.append_assoc, List.cons_append, guardSlashes_append_cons (by decide),
      guardSlashes_append_cons (by decide), guardSlashes_quote,
      guardSlashes_compactChars hv.1 depth, guardSlashes_compactMembers hv.2 depth]
    simp [Layout.members]

end

theorem toList_dataText (props : Option Json) :
    (dataText props).toList = guardSlashes ((props.map Json.compact).getD "null").toList := by
  rw [dataText, Text.replace, String.toList_ofList]
  exact replaceFrom_eq_guardSlashes _

theorem contains_dataText (props : Option Json) : Text.contains (dataText props) "</" = false := by
  rw [Text.contains, toList_dataText]
  exact occursIn_guardSlashes _

theorem dataText_eq {v : Json} (hv : v.isExact = true) :
    dataText (some v) = String.ofList (guardedLayout.chars 0 v) := by
  rw [← String.toList_inj, toList_dataText, String.toList_ofList, ← guardSlashes_compactChars hv]
  exact congrArg guardSlashes String.toList_ofList

def dataTag : String :=
  "<script id=\"__post-data\" type=\"application/json\">"

def beforeData (p : Page) : String :=
  "<!DOCTYPE html>\n<html lang=\"" ++ Text.Markup.escape p.location.locale
    ++ "\">\n<head>\n<meta charset=\"utf-8\">\n</head>\n<body>\n<main id=\"__post\"></main>\n"

def afterData (p : Page) : String :=
  (p.appScript.map scriptElement).getD "" ++ scriptElement p.pageScript ++ "</body>\n</html>\n"

theorem page_eq (p : Page) :
    page p = beforeData p ++ dataTag ++ dataText p.staticProps ++ "</script>\n" ++ afterData p := by
  have hassoc (start app script stop : String) :
      start ++ app ++ script ++ stop = start ++ (app ++ script ++ stop) := by
    simp only [String.append_assoc]
  exact hassoc _ _ _ _

/-- The document of a page holds its data in an element of its own, with no end tag inside, and the data
reads back from there. -/
theorem page_carries_data (p : Page) {v : Json} (hp : p.staticProps = some v) (hv : v.Plain) :
    ∃ before text after, page p = before ++ dataTag ++ text ++ "</script>\n" ++ after ∧
      text = dataText p.staticProps ∧ Text.contains text "</" = false ∧
      decode? v.depth text = some v ∧ (v.depth ≤ maxDepth → Json.parse? text = some v) := by
  have hread : ∀ bound, v.depth ≤ bound → decode? bound (dataText p.staticProps) = some v := by
    intro bound hd
    rw [hp, dataText_eq hv.isExact]
    exact decode?_chars guardedLayout hv hd
  exact ⟨beforeData p, dataText p.staticProps, afterData p, page_eq p, rfl,
    contains_dataText p.staticProps, hread v.depth le_rfl, hread maxDepth⟩

/-- Data whose strings spell the end tag, a quote and a backslash. -/
def sampleData : Json :=
  .object [("<", .array [.null, .bool true, .number (.integer (-1)), .string "<</script>\"\\"]),
    ("a", .object [])]

def samplePage : Page where
  location := ⟨"/", "en", "/", "/index", [], ""⟩
  pageId := "/pages/index.js"
  pageScript := "/_post/pages/index.js"
  appScript := none
  staticProps := some sampleData

theorem page_carries_data_sample : sampleData.Plain ∧
    dataText samplePage.staticProps =
      "\x7b\"<\":[null,true,-1,\"<<\\/script>\\\"\\\\\"],\"a\":\x7b\x7d\x7d" ∧
    Json.parse? (dataText samplePage.staticProps) = some sampleData := by
  have hplain : sampleData.Plain := by
    refine ⟨?_, ⟨trivial, trivial, ?_, trivial, trivial⟩, ⟨List.Pairwise.nil, trivial⟩, trivial⟩
    · have hlt : ("<" : String) < "a" := String.lt_iff_toList_lt.2 (by decide)
      exact List.Pairwise.cons (fun m hm ↦ List.mem_singleton.1 hm ▸ hlt) (List.pairwise_singleton _ _)
    · exact ⟨by decide, by decide⟩
  obtain ⟨-, text, -, -, htext, -, -, hread⟩ := page_carries_data samplePage rfl hplain
  exact ⟨hplain, by decide +kernel, htext ▸ hread (by decide)⟩

end SiteCompiler.Shell
