import SiteCompiler.Script.Expressions
import SiteCompiler.Script.ModuleItems

namespace SiteCompiler.Script.Grammar

open Reader

variable (g : Grammar)

def substatement : Reader Stmt :=
  g.statement false

def condition : Reader Expr := do
  expect "("
  let e ← within ({ · with allowsIn := true }) g.expression
  expect ")"
  return e

def ifStatement : Reader Form := do
  expectWord "if"
  let test ← g.condition
  let yes ← g.substatement
  if ← acceptWord "else" then return .alternative test yes (← g.substatement)
  return .conditional test yes

/-! ### Loops -/

def threePartLoop (start : Form) : Reader Form := do
  let part : Reader Expr := within ({ · with allowsIn := true }) g.expression
  expect ";"
  let test ← if ← at? ";" then pure .absent else part
  expect ";"
  let step ← if ← at? ")" then pure .absent else part
  expect ")"
  return .loop start test step (← g.substatement)

def traversal (keyword : String) (isAwaited : Bool) (target : Form) : Reader Form := do
  expectWord keyword
  let source : Reader Expr := if keyword = "of" then g.operand else g.expression
  let source ← within ({ · with allowsIn := true }) source
  expect ")"
  return .traversal keyword isAwaited target source (← g.substatement)

def headVariablesAhead : Reader Bool := do
  if (← atWord? "var") || (← atWord? "const") then return true
  if (← usingAhead) || (← awaitUsingAhead) then return true
  let startsTarget (t : Token) : Bool :=
    isAnyWord t && t ≠ .word "in" || t = .punctuation "[" || t = .punctuation "\x7b"
  return (← atWord? "let") && (← next? startsTarget)

def inHead (reader : Reader α) : Reader α :=
  within ({ · with allowsIn := false }) reader

def declaringLoop (isAwaited : Bool) : Reader Form := do
  let (kind, found) ← inHead g.openBindings
  let start := Form.bindings kind found
  if ← atWord? "of" then return ← g.traversal "of" isAwaited start
  require !isAwaited
  if ← atWord? "in" then
    require !(isResource kind)
    return ← g.traversal "in" false start
  require (hasValues kind found)
  g.threePartLoop start

def evaluatingLoop (isAwaited : Bool) : Reader Form := do
  let isLet ← atWord? "let"
  let isAsyncOf := (← atWord? "async") && (← next? (· = .word "of"))
  let e ← inHead g.expression
  if ← atWord? "of" then
    require (!isLet && (isAwaited || !isAsyncOf))
    return ← g.traversal "of" isAwaited (.expression (← asTarget e))
  require !isAwaited
  if ← atWord? "in" then return ← g.traversal "in" false (.expression (← asTarget e))
  g.threePartLoop (.expression e)

def forStatement : Reader Form := do
  expectWord "for"
  let isAwaited ← acceptWord "await"
  require (!isAwaited || (← surroundings).allowsAwait)
  expect "("
  if ← at? ";" then
    require !isAwaited
    return ← g.threePartLoop .empty
  if ← headVariablesAhead then return ← g.declaringLoop isAwaited
  g.evaluatingLoop isAwaited

def whileStatement : Reader Form := do
  expectWord "while"
  let test ← g.condition
  return .whileLoop test (← g.substatement)

def doStatement : Reader Form := do
  expectWord "do"
  let body ← g.substatement
  expectWord "while"
  let test ← g.condition
  discard (accept ";")
  return .doLoop body test

def withStatement : Reader Form := do
  expectWord "with"
  let object ← g.condition
  return .withObject object (← g.substatement)

/-! ### Switches and guarded blocks -/

def wayEnds : Reader Bool := do
  return (← at? "\x7d") || (← atWord? "case") || (← atWord? "default")

def declaresResource : Stmt → Bool
  | .mk _ (.bindings kind _) => isResource kind
  | _ => false

/-- One way of a switch. Resources have to be declared in a block of their own. -/
def way : Reader Case := do
  let test ← if ← acceptWord "default" then pure .absent else do
    expectWord "case"
    within ({ · with allowsIn := true }) g.expression
  expect ":"
  let body ← many do
    if ← wayEnds then return none else return some (← g.statement true)
  require !(body.any declaresResource)
  return .mk test body

def switchStatement : Reader Form := do
  expectWord "switch"
  let subject ← g.condition
  expect "\x7b"
  return .switch subject (← upTo "\x7d" g.way)

def handler : Reader Handler := do
  expectWord "catch"
  let parameter ← if ← accept "(" then do
      let p ← g.pattern
      g.typeMark
      expect ")"
      pure p
    else pure .absent
  return .onError parameter (← g.block)

def tryStatement : Reader Form := do
  expectWord "try"
  let body ← g.block
  let handlers ← if ← atWord? "catch" then do pure [← g.handler] else pure []
  let atEnd ← if ← acceptWord "finally" then do pure [.always (← g.block)] else pure []
  require !(handlers ++ atEnd).isEmpty
  return .guarded body (handlers ++ atEnd)

/-! ### Jumps and expressions -/

def operandMissing : Reader Bool := do
  return (← at? ";") || (← endsStatement)

def jumpOperand (keyword : String) : Reader Expr := do
  let value : Reader Expr := within ({ · with allowsIn := true }) g.expression
  match keyword with
  | "return" => do
    require (← surroundings).allowsReturn
    if ← operandMissing then return .absent else value
  | "throw" => do
    require !(← afterBreak)
    value
  | "debugger" => return .absent
  | _ => if ← operandMissing then return .absent else return .label (← identifier)

def jump (keyword : String) : Reader Form := do
  advance
  let e ← g.jumpOperand keyword
  endOfStatement
  return .jump keyword e

def expressionStatement : Reader Form := do
  let e ← g.expression
  match e with
  | .name label => do
    if ← accept ":" then return .labeled label (← g.substatement)
    endOfStatement
    return .expression e
  | e => do
    endOfStatement
    return .expression e

/-! ### Words with two meanings -/

def isOperator (t : Token) : Bool :=
  match t with
  | .punctuation mark => mark = "=" || assignmentMarks.contains mark || (levelOf? mark).isSome
  | .word text => text = "in" || text = "instanceof"
  | _ => false

def letExpression? (isListed : Bool) : Reader (Option Expr) := do
  if ← next? fun t => t = .punctuation "." || t = .punctuation "(" then return some (← g.expression)
  if ← next? isOperator then return some (← g.operand)
  let isAlone ← next? (· = .punctuation ";")
  if isAlone || !isListed && !(← next? (· = .punctuation "[")) then
    return some (.name (← identifier))
  return none

def letStatement (isListed : Bool) : Reader Form := do
  match ← g.letExpression? isListed with
  | some e => do
    endOfStatement
    return .expression e
  | none => do
    require isListed
    g.variableStatement

def decoratedStatement (isListed : Bool) : Reader Form := do
  let found ← g.decorators
  if ← atWord? "export" then return ← g.exportDeclaration found
  require isListed
  g.classDeclaration found true

/-! ### Dispatch -/

def keywordStatement? (word : String) : Reader (Option Form) := do
  match word with
  | "if" => return some (← g.ifStatement)
  | "for" => return some (← g.forStatement)
  | "while" => return some (← g.whileStatement)
  | "do" => return some (← g.doStatement)
  | "with" => return some (← g.withStatement)
  | "switch" => return some (← g.switchStatement)
  | "try" => return some (← g.tryStatement)
  | "return" => return some (← g.jump word)
  | "throw" => return some (← g.jump word)
  | "break" => return some (← g.jump word)
  | "continue" => return some (← g.jump word)
  | "debugger" => return some (← g.jump word)
  | _ => return none

def declaration? (isListed : Bool) : Reader (Option Form) := do
  if ← functionAhead then
    let f ← g.functionDeclaration true
    require (isListed || isPlainFunction f)
    return some f
  if ← atWord? "class" then
    require isListed
    return some (← g.classDeclaration [] true)
  if ← constEnumAhead then return some (← g.enumeration)
  if (← usingAhead) || (← awaitUsingAhead) || (← atWord? "const") then
    require isListed
    return some (← g.variableStatement)
  if ← atWord? "var" then return some (← g.variableStatement)
  if ← typedDeclarationAhead then return some (← g.typedDeclaration)
  return none

def formFrom (isListed : Bool) : Reader Form := do
  match ← token with
  | .punctuation ";" => do advance; return .empty
  | .punctuation "\x7b" => return .block (← g.block)
  | .punctuation "@" => g.decoratedStatement isListed
  | .word text => do
    if let some f ← g.keywordStatement? text then return f
    if ← moduleItemAhead then return ← g.moduleItem []
    if text = "let" then return ← g.letStatement isListed
    match ← g.declaration? isListed with
    | some f => return f
    | none => g.expressionStatement
  | _ => g.expressionStatement

/-- The functions that a statement starts with, with the note that calls of them have no effects. -/
def markInertForm : Form → Form
  | .declaration e => .declaration (markInert e)
  | .bindings "const" (.defaulted target value :: rest) =>
    .bindings "const" (.defaulted target (markInert value) :: rest)
  | .exportDefault e => .exportDefault (markInert e)
  | .exported f => .exported (markInertForm f)
  | f => f

def statementRule (isListed : Bool) : Reader Stmt := do
  let start ← place
  let isInert := (← get).gap.isInert
  let form ← within ({ · with allowsIn := true }) (g.formFrom isListed)
  return .mk start (if isInert then markInertForm form else form)

end SiteCompiler.Script.Grammar
