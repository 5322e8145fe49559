import SiteCompiler.Script.Arrows
import SiteCompiler.Script.Chains

namespace SiteCompiler.Script.Grammar

open Reader

variable (g : Grammar)

/-! ### Operators on one operand -/

def markPure : Expr → Expr
  | .parens e => .parens (markPure e)
  | .call _ callee isOptional arguments close => .call true callee isOptional arguments close
  | .construct _ callee arguments close => .construct true callee arguments close
  | .chain (.call _ callee isOptional arguments close) =>
    .chain (.call true callee isOptional arguments close)
  | e => e

def isOperandStart (t : Token) : Bool :=
  isAnyWord t || t matches .number _ || t matches .string ..

/-- Whether a word waits for what stands behind it. Where it may not, it still is no name if an
operand follows. -/
def awaitAhead : Reader Bool := do
  if !(← atWord? "await") then return false
  return (← surroundings).allowsAwait || (← nextOnLine? isOperandStart)

inductive Lead where
  | operator (text : String)
  | update (text : String)
  | await
  /-- The type that the operand is said to have. -/
  | type

def prefixMarks : List String := ["!", "~", "+", "-"]

def prefixWords : List String := ["typeof", "void", "delete"]

def lead? : Reader (Option Lead) := do
  match ← token with
  | .punctuation text =>
    if prefixMarks.contains text then do advance; return some (.operator text)
    else if text = "++" || text = "--" then do advance; return some (.update text)
    else if (← get).dialect = .ts && (← atOpenAngle) then do
      g.typeArguments
      return some .type
    else return none
  | .word text =>
    if prefixWords.contains text then do advance; return some (.operator text)
    else if ← awaitAhead then do
      require (← surroundings).allowsAwait
      advance
      return some .await
    else return none
  | _ => return none

def applyLead (lead : Lead) (e : Expr) : Reader Expr := do
  match lead with
  | .operator text => return .unary text e
  | .update text => return .update text true (← asReference e)
  | .await => return .await e
  | .type => return .ascribed e

/-- A chain, and an operator behind it that changes what it refers to; or an element. -/
def updated : Reader Expr := do
  if (← at? "<") && (← get).dialect.hasElements then do
    let e ← g.element
    advance
    return e
  let e ← g.chainRule
  if (← atAny? ["++", "--"]) && !(← afterBreak) then
    let operator := if ← at? "++" then "++" else "--"
    let e ← asReference e
    advance
    return .update operator false e
  return e

def unary : Reader Expr := do
  let leads ← many g.lead?
  let e ← g.updated
  leads.foldrM applyLead e

/-! ### Operators on two operands -/

def levelOf? (operator : String) : Option Nat :=
  match operator with
  | "??" => some 1
  | "||" => some 2
  | "&&" => some 3
  | "|" => some 4
  | "^" => some 5
  | "&" => some 6
  | "==" | "!=" | "===" | "!==" => some 7
  | "<" | ">" | "<=" | ">=" | "in" | "instanceof" => some 8
  | "<<" | ">>" | ">>>" => some 9
  | "+" | "-" => some 10
  | "*" | "/" | "%" => some 11
  | "**" => some 12
  | _ => none

def comparison : Nat := 8

def operator? : Reader (Option (String × Nat)) := do
  match ← token with
  | .punctuation text => return (levelOf? text).map fun level => (text, level)
  | .word text =>
    if text = "in" && !(← surroundings).allowsIn then return none
    if text = "in" || text = "instanceof" then return some (text, comparison)
    return none
  | _ => return none

/-- Whether an operator at a level takes an operand from one around it; powers group to the right. -/
def binds (level around : Nat) : Bool :=
  around < level || (around = level && level = 12)

def typeClaimAhead (around : Nat) : Reader Bool := do
  let isMark := (← atWord? "as") || (← atWord? "satisfies")
  return isMark && (← hasTypes) && !(← afterBreak) && binds comparison around

def isChoice : Expr → Bool
  | .binary operator _ _ => operator = "||" || operator = "&&"
  | _ => false

def isLed : Expr → Bool
  | .unary .. => true
  | .await _ => true
  | _ => false

/-- Whether operands may stand on the sides of an operator without parentheses. -/
def mixes (operator : String) (left right : Expr) : Bool :=
  match operator with
  | "??" => !isChoice left && !isChoice right
  | "||" | "&&" => !isAbsence left && !isAbsence right
  | "**" => !isLed left
  | _ => true
where
  isAbsence : Expr → Bool
    | .binary operator _ _ => operator = "??"
    | _ => false

def firstOperand : Reader Expr := do
  let isPure := (← get).gap.isPure
  let e ← g.unary
  return if isPure then markPure e else e

def isPrivateQuestion : Expr → Bool
  | .binary _ (.keyword name) _ => Text.startsWith name "#"
  | _ => false

/-- The question whether an object has a private name, which itself is no such object. -/
def privateQuestion (object : Reader Expr) (name : String) : Reader Expr := do
  advance
  require ((← atWord? "in") && (← surroundings).allowsIn)
  advance
  let object ← object
  require !(isPrivateQuestion object)
  return .binary "in" (.keyword name) object

def binaryAt : Nat → Nat → Reader Expr
  | 0, _ => failure
  | n + 1, around => do
    let first ← match ← token with
      | .privateName name => privateQuestion (binaryAt n comparison) name
      | _ => g.firstOperand
    iterate (fun left => do
      if ← typeClaimAhead around then
        g.announcedType
        return some (.ascribed left)
      match ← operator? with
      | some (operator, level) => do
        if !binds level around then return none
        advance
        let right ← binaryAt n level
        require (mixes operator left right)
        return some (.binary operator left right)
      | none => return none) first

def operation : Reader Expr := do
  g.binaryAt (← get).bound 0

/-! ### Choices, assignments and functions -/

def conditional (allowsResultType : Bool) (test : Expr) : Reader Expr := do
  if ← accept "?" then
    let yes ← within ({ · with allowsIn := true }) (g.value false)
    expect ":"
    return .conditional test yes (← g.value allowsResultType)
  return test

def yieldsNothing : Reader Bool := do
  let isMark ← atAny? [")", "]", "\x7d", ",", ";", ":"]
  return isMark || (← afterBreak) || (← token) = .finish || (← atWord? "in")

def yieldExpression : Reader Expr := do
  expectWord "yield"
  if ← acceptIf (!(← afterBreak)) "*" then return .yield true (← g.operand)
  if ← yieldsNothing then return .yield false .absent
  return .yield false (← g.operand)

def assignmentMarks : List String :=
  ["+=", "-=", "*=", "/=", "%=", "**=", "<<=", ">>=", ">>>=", "&=", "|=", "^=", "&&=", "||=", "??="]

/-- What follows an expression of operators: an assignment to it, a choice by it, or nothing. -/
def assignment (allowsResultType : Bool) (left : Expr) : Reader Expr := do
  match ← token with
  | .punctuation "=" => do
    let target ← asTarget left
    advance
    return .assign "=" target (← g.value allowsResultType)
  | .punctuation text =>
    if assignmentMarks.contains text then do
      let target ← asReference left
      advance
      return .assign text target (← g.value allowsResultType)
    else g.conditional allowsResultType left
  | _ => return left

def valueRule (allowsResultType : Bool) : Reader Expr := do
  let isInert := (← get).gap.isInert
  if (← atWord? "yield") && (← surroundings).allowsYield then return ← g.yieldExpression
  let e ← match ← g.arrow? allowsResultType with
    | some f => pure f
    | none => do g.assignment allowsResultType (← g.operation)
  return if isInert then markInert e else e

end SiteCompiler.Script.Grammar
