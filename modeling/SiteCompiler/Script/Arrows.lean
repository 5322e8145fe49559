import SiteCompiler.Script.Functions

namespace SiteCompiler.Script.Grammar

open Reader

inductive Verdict where
  | yes
  | no
  | open
deriving DecidableEq, Repr

/-! ### The first tokens -/

/-- The words that stand before declarations or members where there are types. -/
def modifierWords : List String :=
  ["abstract", "accessor", "const", "declare", "default", "export", "in", "out", "private",
    "protected", "public", "readonly", "static", "override"]

def isModifier (t : Token) : Bool :=
  match t with
  | .word text => modifierWords.contains text
  | _ => false

def isMarkAmong (marks : List String) (t : Token) : Bool :=
  match t with
  | .punctuation text => marks.contains text
  | _ => false

def restVerdict (t : Token) : Verdict :=
  match t with
  | .string .. => .no
  | .number _ => .no
  | .template .. => .no
  | .regex _ => .no
  | t => if isName t then .yes else if isMarkAmong ["[", "\x7b"] t then .open else .no

def parameterVerdict (first : Token) : Reader Verdict := do
  let second ← token
  if isModifier first && isName second then
    return if second = .word "as" then .no else .yes
  if !isName first && first ≠ .word "this" then return .no
  if isMarkAmong [":"] second then return .yes
  if isMarkAmong ["?"] second then
    advance
    return if ← atAny? [":", ",", "=", ")"] then .yes else .no
  return if isMarkAmong [",", "=", ")"] second then .open else .no

def listVerdict : Reader Verdict := do
  if ← accept ")" then
    if ← atAny? ["=>", "\x7b"] then return .yes
    return if (← hasTypes) && (← at? ":") then .open else .no
  if ← atAny? ["[", "\x7b"] then return .open
  if ← accept "..." then return restVerdict (← token)
  let first ← token
  advance
  parameterVerdict first

/-- Behind an angle bracket. Where there are elements, only some type parameters are told from an
element. -/
def angleVerdict : Reader Verdict := do
  let isConst ← acceptWord "const"
  if !isConst && !isName (← token) then return .no
  if !(← get).dialect.hasElements then return .open
  discard anyWord
  if ← atAny? [",", "="] then return .yes
  if ← acceptWord "extends" then
    return if ← atAny? ["=", ">", "/"] then .no else .yes
  return .no

def verdictBehind : Reader Verdict := do
  if ← acceptWord "async" then
    if ← afterBreak then return .no
  if ← accept "(" then return ← listVerdict
  if ← acceptIf (← hasTypes) "<" then return ← angleVerdict
  return .no

def verdict : Reader Verdict := do
  return (← ahead? verdictBehind).getD .no

/-! ### Reading them -/

variable (g : Grammar)

/-- What is around the parameters and the body of an arrow function: what is asynchronous around a
plain one stays so. -/
def inArrow (isAsync : Bool) (reader : Reader α) : Reader α :=
  within (fun s => { s with allowsAwait := s.allowsAwait || isAsync, inDecorator := false }) reader

def arrowHead (isAsync : Bool) : FunctionHead :=
  { FunctionHead.plain with isAsync }

/-- The parameters of an arrow function up to the arrow, and whether they are followed by the type of
the result. -/
def arrowParameters : Reader (List Parameter × Bool) := do
  g.typeParameters
  require !(← next? (· = .word "this"))
  let parameters ← g.parameters .plain
  let isTyped := (← hasTypes) && (← at? ":")
  g.resultMark
  require ((← at? "=>") && !(← afterBreak))
  return (parameters, isTyped)

def arrowBody (isAsync allowsResultType : Bool) (parameters : List Parameter) : Reader Expr := do
  expect "=>"
  inArrow isAsync <| within ({ · with allowsYield := false }) do
    if ← at? "\x7b" then
      let (body, close) ← g.functionBody
      return .arrowBlock (arrowHead isAsync) parameters body close
    return .arrow (arrowHead isAsync) parameters (← g.value allowsResultType)

/-- An arrow function with its parameters in parentheses. Where the type of a result may not be told,
it can be only if a colon follows the function. -/
def arrowFunction (allowsResultType : Bool) : Reader Expr := do
  let isAsync ← acceptWord "async"
  let (parameters, isTyped) ← inArrow isAsync g.arrowParameters
  let f ← g.arrowBody isAsync allowsResultType parameters
  require (allowsResultType || !isTyped || (← at? ":"))
  return f

/-- An arrow function with its parameters in parentheses, if one starts here. -/
def arrowFunction? (allowsResultType : Bool) : Reader (Option Expr) := do
  match ← verdict with
  | .no => return none
  | .yes => return some (← g.arrowFunction true)
  | .open => do
    let start ← place
    if ← isMemorized start then return none
    let found ← attempt? (g.arrowFunction allowsResultType)
    if found.isNone then memorize start
    return found

/-- Whether an arrow function with one parameter and no parentheses starts here. -/
def plainArrowAhead : Reader Bool := do
  return isName (← token) && (← nextOnLine? fun t => t = .punctuation "=>")

/-- Whether such an arrow function starts behind the word for asynchronous ones. -/
def asyncArrowAhead : Reader Bool := do
  if !(← atWord? "async") then return false
  holdsAhead do
    advance
    return !(← afterBreak) && (← plainArrowAhead)

def plainArrow (isAsync allowsResultType : Bool) : Reader Expr := do
  let name ← inArrow isAsync identifier
  g.arrowBody isAsync allowsResultType [.mk [] false (.name name)]

def arrow? (allowsResultType : Bool) : Reader (Option Expr) := do
  match ← g.arrowFunction? allowsResultType with
  | some f => return some f
  | none => do
    if ← asyncArrowAhead then
      advance
      return some (← g.plainArrow true allowsResultType)
    if ← plainArrowAhead then return some (← g.plainArrow false allowsResultType)
    return none

end SiteCompiler.Script.Grammar
