import SiteCompiler.Script.Entities
import SiteCompiler.Script.Grammar

namespace SiteCompiler.Script.Elements

open Reader

/-! ### Text -/

def lines : List Char → List (List Char)
  | [] => [[]]
  | c :: rest =>
    match Comment.isBreak c, lines rest with
    | true, found => [] :: found
    | false, line :: found => (c :: line) :: found
    | false, [] => [[c]]

def trimEnd (line : List Char) : List Char :=
  (line.reverse.dropWhile Token.isBlank).reverse

/-- A line of text without the blanks at those ends that are not ends of the whole text. -/
def trimLine (count k : Nat) (line : List Char) : List Char :=
  let line := if k = 0 then line else line.dropWhile Token.isBlank
  if k + 1 = count then line else trimEnd line

/-- The text of a child: its lines are trimmed where they were broken, and joined by a blank. -/
def childText (cs : List Char) : Points :=
  let lines := lines cs
  let trimmed := (lines.mapIdx (trimLine lines.length)).filter (!·.isEmpty)
  (trimmed.map Entities.decode).intersperse [32] |>.flatten

def isText (c : Char) : Bool :=
  c ≠ '<' && c ≠ '\x7b' && c ≠ '>' && c ≠ '\x7d'

/-! ### Names -/

def isNamePart (c : Char) : Bool :=
  Token.isNamePart c || c = '-'

def cutName? (cs : List Char) : Option (Token × Nat) :=
  let name := cs.takeWhile isNamePart
  some (.word (.ofList name), name.length)

def namePart : Reader String := do
  match ← token with
  | .word _ => do
    discard (reread cutName?)
    anyWord
  | _ => failure

def spacedName : Reader String := do
  let first ← namePart
  if ← accept ":" then return first ++ ":" ++ (← namePart)
  return first

def hasDash (name : String) : Bool :=
  Text.contains name "-"

def tagOf (name : String) : Expr :=
  let isPlain := (name.toList.head?.map Char.isLower).getD false
  if name = "this" then .keyword name
  else if isPlain || hasDash name then .string (Points.ofString name)
  else .name name

/-- The parts of the name of an element, and what they name. A name in a space of names is none. -/
def tagName : Reader (Expr × List String) := do
  let first ← namePart
  require !(← at? ":")
  let parts ← many do
    if ← accept "." then return some (← namePart) else return none
  match parts with
  | [] => return (tagOf first, [first])
  | parts =>
    require !((first :: parts).any hasDash)
    let object : Expr := if first = "this" then .keyword first else .name first
    return (parts.foldl (fun e name => .property e false name) object, first :: parts)

def attributeKey (name : String) : Expr :=
  if hasDash name || Text.contains name ":" then .string (Points.ofString name) else .label name

variable (g : Grammar)

/-! ### Attributes -/

/-- The text of an attribute behind its equals sign, if it is quoted; it has no escapes. -/
def quotedValue? : Reader (Option Points) := do
  let r ← get
  let start := r.here.drop r.width
  let (_, skipped) ← ofOption (Gap.read? r.bound none start)
  match start.drop skipped with
  | quote :: rest =>
    if quote = '"' || quote = '\'' then
      let text := rest.takeWhile (· ≠ quote)
      match rest.drop text.length with
      | _ :: rest => do
        enter (some (.string "" [])) (r.place + r.width + skipped + text.length + 2) rest
        return some (Entities.decode text)
      | [] => failure
    else return none
  | [] => return none

def braced (e : Reader Expr) : Reader Expr := do
  let e ← bracketed e
  expect "\x7d"
  return e

def attributeValue : Reader Expr := do
  require (← at? "=")
  match ← quotedValue? with
  | some points => return .string points
  | none => do
    advance
    if ← accept "\x7b" then return ← braced g.operand
    require (← at? "<")
    let e ← g.element
    advance
    return e

def attributes : Reader (List Member) :=
  many do
    match ← token with
    | .word _ => do
      let name ← spacedName
      let value ← if ← at? "=" then attributeValue g else pure .absent
      return some (.property (attributeKey name) value)
    | .punctuation "\x7b" => do
      advance
      expect "..."
      return some (.spread (← braced g.expression))
    | _ => return none

/-! ### Children -/

def standAtAngle : Reader Unit := do
  cutAngle ">"
  require (← at? ">")

/-- A child in braces after the opening one, unless there is none; the closing brace is the current
token after it. -/
def bracedChild : Reader (List Argument) := do
  if ← at? "\x7d" then return []
  let start ← place
  let e ← bracketed do
    if ← accept "..." then return .spread (← g.expression) else g.operand
  require (← at? "\x7d")
  return [.mk start e]

def closingTag (names : List String) : Reader Unit := do
  let closing ← match ← token with
    | .word _ => pure (← tagName).2
    | _ => pure []
  require (closing = names)
  standAtAngle

/-- Takes the text at the start, if there is any, out of what is still to be read. -/
def textChild? (start : Place) (cs : List Char) : Reader (Option (List Argument)) := do
  let text := cs.takeWhile isText
  if text.isEmpty then return none
  modify ({ · with place := start + text.length, width := 0, here := cs.drop text.length })
  let points := childText text
  return some (if points.isEmpty then [] else [.mk start (.string points)])

/-- The next child after the current token, or the closing tag of the element. -/
def child (names : List String) : Reader (Option (List Argument)) := do
  let r ← get
  let start := r.place + r.width
  let cs := r.here.drop r.width
  if let some found ← textChild? start cs then return some found
  match cs with
  | '\x7b' :: rest => do
    enter (some (.punctuation "\x7b")) (start + 1) rest
    return some (← bracedChild g)
  | '<' :: rest => do
    enter (some (.punctuation "<")) (start + 1) rest
    if ← accept "/" then
      closingTag names
      return none
    enter none start ('<' :: rest)
    return some [.mk start (← g.element)]
  | _ => failure

/-- The children of an element up to its closing tag, at whose last bracket the reader stands then. -/
def children (names : List String) : Reader (List Argument) := do
  return (← many (child g names)).flatten

/-- An element from its opening angle bracket to its last one, which stays the current token. -/
def rule : Reader Expr := do
  expect "<"
  let start ← place
  match ← token with
  | .word _ => do
    let (tag, names) ← tagName
    if (← hasTypes) && (← atOpenAngle) then g.typeArguments
    let found ← attributes g
    let isClosed ← accept "/"
    standAtAngle
    let inside ← if isClosed then pure [] else children g names
    return .markup start tag found inside (← place)
  | _ => do
    standAtAngle
    let inside ← children g []
    return .markup start .absent [] inside (← place)

end SiteCompiler.Script.Elements
