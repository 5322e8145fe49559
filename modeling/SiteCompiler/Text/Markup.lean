namespace SiteCompiler.Text.Markup

def escapeChar (c : Char) : List Char :=
  match c with
  | '&' => "&amp;".toList
  | '<' => "&lt;".toList
  | '>' => "&gt;".toList
  | '"' => "&quot;".toList
  | '\'' => "&#x27;".toList
  | c => [c]

def escape (s : String) : String :=
  .ofList (s.toList.flatMap escapeChar)

end SiteCompiler.Text.Markup
