import SiteCompiler.Script.Patterns

namespace SiteCompiler.Script.Grammar

open Reader

variable (g : Grammar)

def decorators : Reader (List Expr) :=
  many do
    if ← accept "@" then return some (← within ({ · with inDecorator := true }) g.chain)
    else return none

/-! ### Parameters -/

structure ParameterRules where
  /-- Whether they can declare properties. -/
  allowsProperties : Bool
  allowsDecorators : Bool

def ParameterRules.plain : ParameterRules := ⟨false, false⟩

def accessWords : List String := ["public", "private", "protected", "readonly", "override"]

def startsPattern (t : Token) : Bool :=
  isName t || t = .word "this" || t = .punctuation "[" || t = .punctuation "\x7b"

def accessModifiers : Reader Bool := do
  if !(← hasTypes) then return false
  let found ← many do
    match ← token with
    | .word text =>
      if accessWords.contains text && (← nextOnLine? startsPattern) then do
        advance; return some ()
      else return none
    | _ => return none
  return !found.isEmpty

def isVariable : Expr → Bool
  | .name _ => true
  | .defaulted (.name _) _ => true
  | _ => false

def parameter (rules : ParameterRules) : Reader Parameter := do
  let found ← g.decorators
  require (found.isEmpty || rules.allowsDecorators && (← hasTypes))
  if ← at? "..." then return .mk found false (← g.restElement)
  let isProperty ← accessModifiers
  require (!isProperty || rules.allowsProperties)
  let target ← g.elementWithDefault
  require (!isProperty || isVariable target)
  return .mk found isProperty target

/-- The type of the receiver, which stands before the parameters like one of them. -/
def receiver : Reader Unit := do
  if (← hasTypes) && (← atWord? "this") then
    advance
    g.typeMark
    if !(← accept ",") then require (← at? ")")

def isRest : Parameter → Bool
  | .mk _ _ pattern => isSpread pattern

def parameters (rules : ParameterRules) : Reader (List Parameter) := do
  expect "("
  let found ← within ({ · with allowsIn := true }) do
    g.receiver
    commaListUpTo ")" (g.parameter rules)
  withRest isRest found

/-! ### Bodies -/

def isStringAlone : Stmt → Bool
  | .mk _ (.expression (.string _)) => true
  | _ => false

/-- Statements up to a closing brace or the end; strings that stand alone at the start are
directives. -/
def statementsFrom (allowsDirective : Bool) : Nat → Reader (List Stmt)
  | 0 => failure
  | n + 1 => do
    if (← at? "\x7d") || (← token) = .finish then return []
    let first ← token
    let s ← g.statement true
    match allowsDirective && isStringAlone s, first with
    | true, .string raw _ => return .mk s.place (.directive raw) :: (← statementsFrom true n)
    | _, _ => return s :: (← statementsFrom false n)

def braced (allowsDirective : Bool) : Reader (List Stmt) := do
  expect "\x7b"
  let body ← g.statementsFrom allowsDirective (← get).bound
  expect "\x7d"
  return body

def block : Reader (List Stmt) :=
  g.braced false

def functionBody : Reader (List Stmt × Place) := do
  expect "\x7b"
  let inside (s : Surroundings) : Surroundings :=
    { s with allowsIn := true, allowsReturn := true, inDecorator := false }
  let body ← within inside do g.statementsFrom true (← get).bound
  let close ← place
  expect "\x7d"
  return (body, close)

def inFunction (isAsync isGenerator : Bool) (reader : Reader α) : Reader α :=
  within (fun s => { s with
    allowsIn := true, allowsAwait := isAsync, allowsYield := isGenerator, inDecorator := false
    allowsReturn := false }) reader

/-! ### Functions -/

/-- A function under a head, from its parameters on. Where there can be types, the body may be
missing. -/
def functionRest (rules : ParameterRules) (head : FunctionHead) : Reader Expr := do
  inFunction head.isAsync head.isGenerator do
    g.typeParameters
    let parameters ← g.parameters rules
    g.resultMark
    if ← at? "\x7b" then
      let (body, close) ← g.functionBody
      return .function head parameters body close
    require (← hasTypes)
    return .function { head with hasBody := false } parameters [] 0

def isWhole : Expr → Bool
  | .function head .. => head.hasBody
  | _ => true

/-- A function as it is declared, which ends like a statement if it has no body. -/
def declaredRest (rules : ParameterRules) (head : FunctionHead) : Reader Expr := do
  let f ← g.functionRest rules head
  if !(isWhole f) then endOfStatement
  return f

/-- A function from its keyword on; the name of an expression belongs to the function itself. -/
def functionFrom (isExpression isAsync : Bool) : Reader Expr := do
  expectWord "function"
  let isGenerator ← accept "*"
  let named : Reader String := do if isName (← token) then identifier else return ""
  let naming (s : Surroundings) : Surroundings :=
    if isExpression then { s with allowsAwait := isAsync, allowsYield := isGenerator } else s
  let name ← within naming named
  g.declaredRest .plain ⟨isAsync, isGenerator, false, false, name, true⟩

def asyncFunctionAhead : Reader Bool := do
  return (← atWord? "async") && (← nextOnLine? fun t => t = .word "function")

def functionAhead : Reader Bool := do
  return (← atWord? "function") || (← asyncFunctionAhead)

def function (isExpression : Bool) : Reader Expr := do
  let isAsync ← acceptWord "async"
  g.functionFrom isExpression isAsync

def markInert : Expr → Expr
  | .function head parameters body close =>
    .function { head with isInert := true } parameters body close
  | .arrow head parameters result => .arrow { head with isInert := true } parameters result
  | .arrowBlock head parameters body close =>
    .arrowBlock { head with isInert := true } parameters body close
  | e => e

def markEnclosed : Expr → Expr
  | .function head parameters body close =>
    .function { head with isEnclosed := true } parameters body close
  | .arrow head parameters result => .arrow { head with isEnclosed := true } parameters result
  | .arrowBlock head parameters body close =>
    .arrowBlock { head with isEnclosed := true } parameters body close
  | e => e

end SiteCompiler.Script.Grammar
