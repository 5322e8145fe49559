import SiteCompiler.Script.Points

namespace SiteCompiler.Script

inductive Chunk where
  | text (content : List Char)
  | specifier (value : Points)
deriving DecidableEq, Repr

abbrev Template := List Chunk

def Template.specifiers (t : Template) : List Points :=
  t.filterMap fun
    | .text _ => none
    | .specifier value => some value

end SiteCompiler.Script
