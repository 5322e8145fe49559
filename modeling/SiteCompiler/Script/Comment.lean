import SiteCompiler.Text.Cutting

namespace SiteCompiler.Script

/-- A comment with its delimiters, and whether a line break comes before and after it. -/
structure Comment where
  text : List Char
  isLine : Bool
  afterBreak : Bool
  beforeBreak : Bool
deriving DecidableEq, Repr

namespace Comment

def isBreak (c : Char) : Bool :=
  c = '\n' || c = '\r' || c = '\u2028' || c = '\u2029'

def content (c : Comment) : List Char :=
  let inner := c.text.drop 2
  if c.isLine then inner else inner.take (inner.length - 2)

/-- Whether a comment tells something about the code behind it in a word between underscores. -/
def tells (word : String) (c : Comment) : Bool :=
  match c.content.dropWhile Text.isBlank with
  | mark :: rest => (mark = '@' || mark = '#') && word.toList.isPrefixOf rest
  | [] => false

def marksPure (c : Comment) : Bool :=
  c.tells "__PURE__"

/-- Whether a comment says that calls of the function behind it have no effects. -/
def marksInert (c : Comment) : Bool :=
  c.tells "__NO_SIDE_EFFECTS__"

def isLegal (c : Comment) : Bool :=
  c.content.head? = some '!' || Text.occursIn "@license".toList c.content
    || Text.occursIn "@preserve".toList c.content

def touchesBreak (c : Comment) : Bool :=
  c.afterBreak || c.beforeBreak

def lines (c : Comment) : List (List Char) :=
  split [] c.text
where
  split (line : List Char) : List Char → List (List Char)
    | [] => [line.reverse]
    | '\r' :: '\n' :: rest => line.reverse :: split [] rest
    | c :: rest => if isBreak c then line.reverse :: split [] rest else split (c :: line) rest

end Comment

inductive Pragma where
  /-- The function that makes elements. -/
  | factory (name : String)
  /-- The kind of the elements that only group others. -/
  | fragment (name : String)
  /-- Whether the functions that make elements are imported. -/
  | runtime (isImported : Bool)
  /-- Where they are imported from. -/
  | source (name : String)
deriving DecidableEq, Repr

namespace Pragma

def isSpace (c : Char) : Bool :=
  c = ' ' || c = '\t'

def marker : List Char := "@jsx".toList

def ofWords? (keyword value : String) : Option Pragma :=
  match keyword, value with
  | "", name => some (factory name)
  | "Frag", name => some (fragment name)
  | "Runtime", "classic" => some (runtime false)
  | "Runtime", "automatic" => some (runtime true)
  | "ImportSource", name => some (source name)
  | _, _ => none

/-- What stands behind a mark: the end of its keyword, and the word behind that. -/
def ofText? (cs : List Char) : Option Pragma :=
  let keyword := cs.takeWhile (!isSpace ·)
  let rest := cs.dropWhile (!isSpace ·)
  let value := (rest.dropWhile isSpace).takeWhile (!Text.isBlank ·)
  if rest = [] || value = [] then none else ofWords? (.ofList keyword) (.ofList value)

def inText : List Char → List Pragma
  | [] => []
  | c :: rest =>
    (if marker.isPrefixOf (c :: rest) then (ofText? (rest.drop 3)).toList else []) ++ inText rest

end Pragma
end SiteCompiler.Script
