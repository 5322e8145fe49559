import SiteCompiler.Proofs.Html.Tokens
import SiteCompiler.Proofs.Shell.Data

namespace SiteCompiler

namespace Text.Markup

def specials : List Char :=
  ['"', '\'', '<', '>']

theorem not_mem_escape (s : String) {c : Char} (hc : c ∈ specials) : c ∉ (escape s).toList := by
  intro hm
  rw [escape, String.toList_ofList] at hm
  obtain ⟨d, -, hd⟩ := List.mem_flatMap.1 hm
  have hreference {reference : List Char}
      (h : reference.all (fun x ↦ !specials.contains x) = true) (hd : c ∈ reference) : False := by
    simpa [hc] using List.all_eq_true.1 h c hd
  unfold escapeChar at hd
  split at hd
  case h_6 hless hgreater hquote hapostrophe =>
    rw [List.mem_singleton.1 hd] at hc
    simp only [specials, List.mem_cons, List.not_mem_nil, or_false] at hc
    tauto
  all_goals exact hreference (by decide) hd

end Text.Markup

namespace Shell

open Html Html.State

def openTag (name : String) (attributes : List (String × String)) : Token :=
  .tag ⟨false, name.toList, attributes.map fun a ↦ (a.1.toList, a.2.toList)⟩

def closeTag (name : String) : Token :=
  .tag ⟨true, name.toList, []⟩

def lineBreak : Token :=
  .char '\n'

def scriptTokens (source : String) : List Token :=
  [openTag "script" [("type", "module"), ("src", Text.Markup.escape source)], closeTag "script", lineBreak]

def frameTokens : List Token :=
  [lineBreak, openTag "head" [], lineBreak, openTag "meta" [("charset", "utf-8")], lineBreak,
    closeTag "head", lineBreak, openTag "body" [], lineBreak, openTag "main" [("id", "__post")],
    closeTag "main", lineBreak]

/-- The tokens of a page's document up to its data, with the tag that opens the element of the data. -/
def tokensBefore (p : Page) : List Token :=
  [.declaration "DOCTYPE html".toList, lineBreak,
    openTag "html" [("lang", Text.Markup.escape p.location.locale)]] ++ frameTokens
    ++ [openTag "script" [("id", "__post-data"), ("type", "application/json")]]

def tokensAfter (p : Page) : List Token :=
  [closeTag "script", lineBreak] ++ (p.appScript.map scriptTokens).getD [] ++ scriptTokens p.pageScript
    ++ [closeTag "body", lineBreak, closeTag "html", lineBreak]

/-- The tokens that a page is meant to consist of: those of its frame, and its data as text. -/
def pageTokens (p : Page) : List Token :=
  tokensBefore p ++ chars (dataText p.staticProps).toList ++ tokensAfter p

def tokens (document : String) : List Token :=
  (data.run document.toList).1

theorem run_value (t : Tag) (name : List Char) (s : String) :
    (quoted t name '"' []).run (Text.Markup.escape s).toList =
      ([], quoted t name '"' (Text.Markup.escape s).toList) := by
  have hrun := run_quoted t name [] (Text.Markup.not_mem_escape s List.mem_cons_self)
  rwa [List.nil_append] at hrun

theorem run_scriptElement (source : String) :
    data.run (scriptElement source).toList = (scriptTokens source, data) := by
  have hstart : data.run "<script type=\"module\" src=\"".toList =
      ([], quoted ⟨false, scriptName, [("type".toList, "module".toList)]⟩ "src".toList '"' []) := by
    decide +kernel
  have hend (value : List Char) :
      (quoted ⟨false, scriptName, [("type".toList, "module".toList)]⟩ "src".toList '"' value).run
        "\"></script>\n".toList =
      ([.tag ⟨false, scriptName, [("type".toList, "module".toList), ("src".toList, value)]⟩,
        closeTag "script", lineBreak], data) := by
    rfl
  have hrun := run_of_eq (run_of_eq hstart (run_value _ _ source)) (hend _)
  unfold scriptElement
  simp only [String.toList_append]
  exact hrun

theorem run_beforeData (p : Page) :
    data.run (beforeData p ++ dataTag).toList = (tokensBefore p, script) := by
  have hstart : data.run "<!DOCTYPE html>\n<html lang=\"".toList =
      ([.declaration "DOCTYPE html".toList, lineBreak],
        quoted ⟨false, "html".toList, []⟩ "lang".toList '"' []) := by
    decide +kernel
  have hend (value : List Char) : (quoted ⟨false, "html".toList, []⟩ "lang".toList '"' value).run
      "\">\n<head>\n<meta charset=\"utf-8\">\n</head>\n<body>\n<main id=\"__post\"></main>\n".toList =
        (.tag ⟨false, "html".toList, [("lang".toList, value)]⟩ :: frameTokens, data) := by
    have hclose : (quoted ⟨false, "html".toList, []⟩ "lang".toList '"' value).run ['"', '>'] =
        ([.tag ⟨false, "html".toList, [("lang".toList, value)]⟩], data) := by
      rfl
    have hframe : data.run
        "\n<head>\n<meta charset=\"utf-8\">\n</head>\n<body>\n<main id=\"__post\"></main>\n".toList =
        (frameTokens, data) := by
      decide +kernel
    have hsplit :
        "\">\n<head>\n<meta charset=\"utf-8\">\n</head>\n<body>\n<main id=\"__post\"></main>\n".toList =
          ['"', '>'] ++
            "\n<head>\n<meta charset=\"utf-8\">\n</head>\n<body>\n<main id=\"__post\"></main>\n".toList := by
      decide +kernel
    rw [hsplit, run_of_eq hclose hframe]
    rfl
  have htag : data.run dataTag.toList =
      ([openTag "script" [("id", "__post-data"), ("type", "application/json")]], script) := by
    decide +kernel
  have hrun := run_of_eq (run_of_eq (run_of_eq hstart (run_value _ _ p.location.locale)) (hend _)) htag
  unfold beforeData
  simp only [String.toList_append]
  exact hrun

theorem run_afterData (p : Page) :
    data.run ("\n" ++ afterData p).toList = ((tokensAfter p).drop 1, data) := by
  have hstart : data.run "\n".toList = ([lineBreak], data) := by decide
  have hend : data.run "</body>\n</html>\n".toList =
      ([closeTag "body", lineBreak, closeTag "html", lineBreak], data) := by
    decide +kernel
  have happ : data.run ((p.appScript.map scriptElement).getD "").toList =
      ((p.appScript.map scriptTokens).getD [], data) := by
    cases p.appScript with
    | none => rfl
    | some source => exact run_scriptElement source
  have hrun := run_of_eq hstart (run_of_eq (run_of_eq happ (run_scriptElement p.pageScript)) hend)
  unfold afterData
  simp only [String.toList_append]
  exact hrun

def dataState (p : Page) : State :=
  (script.run (dataText p.staticProps).toList).2

theorem run_dataText (p : Page) : ∃ written,
    data.run (beforeData p ++ dataTag ++ dataText p.staticProps).toList =
      (tokensBefore p ++ chars written, dataState p) ∧ (dataState p).isContent = true ∧
      (dataText p.staticProps).toList = written ++ (dataState p).held := by
  obtain ⟨written, s, hrun, hcontent, hwritten⟩ := run_content (s := script) rfl
    (contains_dataText p.staticProps) fun h ↦ by cases h
  have hstate : dataState p = s := by rw [dataState, hrun]
  have hheld : script.held = [] := rfl
  rw [hheld, List.nil_append] at hwritten
  refine ⟨written, ?_, by rw [hstate]; exact hcontent, by rw [hstate]; exact hwritten⟩
  rw [String.toList_append, hstate]
  exact run_of_eq (run_beforeData p) hrun

theorem toList_page (p : Page) : (page p).toList =
    (beforeData p ++ dataTag ++ dataText p.staticProps).toList ++
      ('<' :: "/script>".toList ++ ("\n" ++ afterData p).toList) := by
  have hend : "</script>\n" = "<" ++ "/script>" ++ "\n" := by decide
  rw [page_eq, hend]
  simp only [String.toList_append, List.append_assoc]
  rfl

/-- The document of a page consists of its own elements exactly if its data does not end inside of a
script in a comment, as it never does without the beginning of a comment. What the page brings along in
attributes has no quotes and no angle brackets. -/
theorem tokens_page_iff (p : Page) :
    (tokens (page p) = pageTokens p ↔ (dataState p).isDouble = false) ∧
      (Text.contains (dataText p.staticProps) "<!--" = false → tokens (page p) = pageTokens p) ∧
      ∀ s ∈ p.location.locale :: p.pageScript :: p.appScript.toList, ∀ c ∈ Text.Markup.specials,
        c ∉ (Text.Markup.escape s).toList := by
  obtain ⟨written, hrun, hcontent, hwritten⟩ := run_dataText p
  have hcloses : (dataState p).isDouble = false → tokens (page p) = pageTokens p := by
    intro hdouble
    have hend := run_of_eq (run_endScript hcontent hdouble) (run_afterData p)
    have hchars : chars (dataText p.staticProps).toList = chars written ++ chars (dataState p).held := by
      rw [hwritten, chars, List.map_append]
      rfl
    rw [tokens, toList_page, run_of_eq hrun hend, pageTokens, hchars]
    simp only [List.append_assoc]
    rfl
  refine ⟨⟨fun h ↦ ?_, hcloses⟩, fun h ↦ hcloses ?_, fun s _ c hc ↦ Text.Markup.not_mem_escape s hc⟩
  · -- The end tag that was written for the data would be the text that starts with `<`.
    rw [← Bool.not_eq_true]
    intro hdouble
    obtain ⟨ts, s, hopen, hheld⟩ := run_of_isDouble hdouble
      ("/script>".toList ++ ("\n" ++ afterData p).toList)
    rw [hheld, List.append_nil] at hwritten
    rw [tokens, toList_page, run_append, hrun, List.cons_append, hopen, pageTokens, hwritten] at h
    cases List.append_cancel_left h
  · exact isDouble_of_isPlain (isPlain_run rfl (contains_dataText p.staticProps)
      (fun h ↦ by cases h) h)

example : (script.run "\x7b\"title\":\"<!--<script>\"\x7d".toList).2.isDouble = true := by
  decide +kernel

end Shell

end SiteCompiler
