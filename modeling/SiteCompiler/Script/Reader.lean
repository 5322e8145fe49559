import SiteCompiler.Dialect
import SiteCompiler.Script.Gap
import SiteCompiler.Script.Syntax
import SiteCompiler.Text.Cutting

namespace SiteCompiler.Script

structure Surroundings where
  /-- Whether `in` is an operator here. -/
  allowsIn : Bool
  allowsYield : Bool
  allowsAwait : Bool
  allowsReturn : Bool
  inDecorator : Bool
  /-- Whether all that is around is said to exist elsewhere. -/
  isAmbient : Bool
  /-- Whether a type may be chosen by a condition. -/
  allowsConditionalType : Bool
deriving DecidableEq, Repr, Inhabited

/-- Where a reader stands: at a token, with the text from it on, and what it remembers. -/
structure Reading where
  token : Token
  /-- Where the token starts, and how many characters it takes. -/
  place : Place
  width : Nat
  here : List Char
  gap : Gap
  surroundings : Surroundings
  /-- The comments before the tokens so far, the last ones first. -/
  comments : List (Place × List Comment)
  pragmas : List Pragma
  /-- The words so far that start with a low line and are no properties. -/
  lowWords : List String
  /-- How many names with defaults stand in objects that are no patterns so far. -/
  pending : Nat
  /-- The names of values that types mention in computed names of methods. -/
  mentioned : List String
  dialect : Dialect
  /-- A bound on the tokens of the program. -/
  bound : Nat
deriving Inhabited

abbrev Memo := List Place

abbrev Reader := StateT Reading (OptionT (StateM Memo))

namespace Reader

def ofOption : Option α → Reader α
  | some a => pure a
  | none => failure

/-- The text of a word that starts with a low line, unless it names a property. -/
def lowWord (previous : Option Token) (token : Token) : List String :=
  match previous, token with
  | some (.punctuation "."), _ => []
  | _, .word text => if Text.startsWith text "_" then [text] else []
  | _, _ => []

def enter (previous : Option Token) (place : Place) (cs : List Char) : Reader Unit := do
  let r ← get
  let (gap, skipped) ← ofOption (Gap.read? r.bound previous cs)
  let here := cs.drop skipped
  let (token, width) ← ofOption (Token.read? here)
  let place := place + skipped
  set { r with
    token, place, width, here, gap
    comments := if gap.remarks.isEmpty then r.comments else (place, gap.remarks) :: r.comments
    pragmas := r.pragmas ++ gap.pragmas
    lowWords := lowWord previous token ++ r.lowWords }

def reread (read : List Char → Option (Token × Nat)) : Reader Token := do
  let r ← get
  let (token, width) ← ofOption (read r.here)
  set { r with token, width }
  return token

def advance : Reader Unit := do
  let r ← get
  enter (some r.token) (r.place + r.width) (r.here.drop r.width)

def token : Reader Token :=
  return (← get).token

def place : Reader Place :=
  return (← get).place

def surroundings : Reader Surroundings :=
  return (← get).surroundings

def hasTypes : Reader Bool :=
  return (← get).dialect.hasTypes

def afterBreak : Reader Bool :=
  return (← get).gap.hasBreak

def require (b : Bool) : Reader Unit :=
  if b then pure () else failure

def attempt? (reader : Reader α) : Reader (Option α) := fun r => OptionT.mk do
  match ← (reader r).run with
  | some (a, r) => return some (some a, r)
  | none => return some (none, r)

def ahead? (reader : Reader α) : Reader (Option α) := do
  let r ← get
  let result ← attempt? reader
  set r
  return result

def holdsAhead (reader : Reader Bool) : Reader Bool := do
  return (← ahead? reader).getD false

def memorize (place : Place) : Reader Unit :=
  modifyThe Memo (place :: ·)

def isMemorized (place : Place) : Reader Bool :=
  return (← getThe Memo).contains place

def at? (mark : String) : Reader Bool :=
  return (← token) = .punctuation mark

def atAny? (marks : List String) : Reader Bool := do
  match ← token with
  | .punctuation text => return marks.contains text
  | _ => return false

def atWord? (word : String) : Reader Bool :=
  return (← token) = .word word

/-- Whether the token after the current one, on whatever line, meets a condition. -/
def next? (condition : Token → Bool) : Reader Bool :=
  holdsAhead do advance; return condition (← token)

/-- Whether the token after the current one is on the same line and meets a condition. -/
def nextOnLine? (condition : Token → Bool) : Reader Bool :=
  holdsAhead do advance; return !(← afterBreak) && condition (← token)

def accept (mark : String) : Reader Bool := do
  if ← at? mark then do advance; return true else return false

def acceptWord (word : String) : Reader Bool := do
  if ← atWord? word then do advance; return true else return false

def acceptIf (b : Bool) (mark : String) : Reader Bool :=
  if b then accept mark else return false

def acceptWordIf (b : Bool) (word : String) : Reader Bool :=
  if b then acceptWord word else return false

def expect (mark : String) : Reader Unit := do
  require (← accept mark)

def expectWord (word : String) : Reader Unit := do
  require (← acceptWord word)

def wordText? : Token → Option String
  | .word text => some text
  | .escapedWord text => some text
  | _ => none

def isAnyWord (t : Token) : Bool :=
  (wordText? t).isSome

def anyWord : Reader String := do
  match wordText? (← token) with
  | some text => do advance; return text
  | none => failure

def stringLiteral : Reader Points := do
  match ← token with
  | .string _ value => do advance; return value
  | _ => failure

def within (change : Surroundings → Surroundings) (reader : Reader α) : Reader α := do
  let outer ← surroundings
  modify fun r => { r with surroundings := change r.surroundings }
  let a ← reader
  modify fun r => { r with surroundings := outer }
  return a

/-- Inside brackets of any kind `in` is an operator, and decorators end nowhere. -/
def bracketed (reader : Reader α) : Reader α :=
  within ({ · with allowsIn := true, inDecorator := false }) reader

def repeatBounded (reader : Reader (Option α)) : Nat → Reader (List α)
  | 0 => failure
  | n + 1 => do
    match ← reader with
    | none => return []
    | some a => return a :: (← repeatBounded reader n)

def many (reader : Reader (Option α)) : Reader (List α) := do
  repeatBounded reader (← get).bound

def repeatWhile (reader : Reader Bool) : Reader Unit := do
  discard <| many do return if ← reader then some () else none

def iterateBounded (step : α → Reader (Option α)) : Nat → α → Reader α
  | 0, _ => failure
  | n + 1, a => do
    match ← step a with
    | none => return a
    | some a => iterateBounded step n a

def iterate (step : α → Reader (Option α)) (a : α) : Reader α := do
  iterateBounded step (← get).bound a

def upTo (mark : String) (item : Reader α) : Reader (List α) :=
  many do
    if ← accept mark then return none else return some (← item)

/-- Items up to a closing mark, which is passed, each with whether a comma follows it, as one does
between two of them. -/
def commaListUpTo (mark : String) (item : Reader α) : Reader (List (α × Bool)) :=
  many do
    if ← accept mark then return none
    else
      let a ← item
      let hasComma ← accept ","
      if !hasComma then require (← at? mark)
      return some (a, hasComma)

def listUpTo (mark : String) (item : Reader α) : Reader (List α) := do
  return (← commaListUpTo mark item).map (·.1)

def separated (item : Reader α) : Reader (List α) := do
  let first ← item
  let rest ← many do
    if ← accept "," then return some (← item) else return none
  return first :: rest

def endsStatement : Reader Bool := do
  return (← afterBreak) || (← at? "\x7d") || (← token) = .finish

/-- The end of a statement: a semicolon, or a place where one may be left out. -/
def endOfStatement : Reader Unit := do
  if !(← accept ";") then require (← endsStatement)

/-- Cuts a longer mark down to the angle bracket that it starts with, if it is one. -/
def cutAngle (mark : String) : Reader Unit := do
  match ← token with
  | .punctuation text =>
    if Text.startsWith text mark && text ≠ mark then
      discard (reread fun _ => some (.punctuation mark, mark.length))
  | _ => pure ()

def atOpenAngle : Reader Bool := do
  return (← at? "<") || (← at? "<<")

def openAngle : Reader Unit := do
  require (← atOpenAngle)
  cutAngle "<"
  advance

def closeAngle : Reader Unit := do
  cutAngle ">"
  expect ">"

def atCloseAngle : Reader Bool := do
  match ← token with
  | .punctuation text => return Text.startsWith text ">"
  | _ => return false

end Reader
end SiteCompiler.Script
