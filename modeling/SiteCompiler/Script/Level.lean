import SiteCompiler.Script.Syntax

namespace SiteCompiler.Script

inductive Level where
  | lowest | comma | spread | yield | assign | conditional | nullish | or | and | bitOr | bitXor
  | bitAnd | equality | comparison | shift | sum | product | power | leading | trailing | construct
  | call | member
deriving DecidableEq, Repr

namespace Level

def below (l : Level) : Level :=
  match l with
  | lowest | comma => lowest
  | spread => comma
  | yield => spread
  | assign => yield
  | conditional => assign
  | nullish => conditional
  | or => nullish
  | and => or
  | bitOr => and
  | bitXor => bitOr
  | bitAnd => bitXor
  | equality => bitAnd
  | comparison => equality
  | shift => comparison
  | sum => shift
  | product => sum
  | power => product
  | leading => power
  | trailing => leading
  | construct => trailing
  | call => construct
  | member => call

instance : LE Level := ⟨fun a b => a.ctorIdx ≤ b.ctorIdx⟩
instance (a b : Level) : Decidable (a ≤ b) := inferInstanceAs (Decidable (a.ctorIdx ≤ b.ctorIdx))

def ofOperator (operator : String) : Level :=
  match operator with
  | "??" => nullish
  | "||" => or
  | "&&" => and
  | "|" => bitOr
  | "^" => bitXor
  | "&" => bitAnd
  | "==" | "!=" | "===" | "!==" => equality
  | "<" | ">" | "<=" | ">=" | "in" | "instanceof" => comparison
  | "<<" | ">>" | ">>>" => shift
  | "+" | "-" => sum
  | "*" | "/" | "%" => product
  | _ => power

def isChoice : Expr → Bool
  | .binary operator _ _ => operator = "||" || operator = "&&"
  | _ => false

/-- An operand of `??` that mixes with other logical operators stands in parentheses. -/
def ofOperand (operator : String) (operand : Expr) (level : Level) : Level :=
  if operator = "??" && isChoice operand.inside then .leading else level

def ofBase : Expr → Level
  | .unary .. => .call
  | _ => .power

def ofLeft (operator : String) (left : Expr) : Level :=
  if operator = "**" then ofBase left.inside
  else ofOperand operator left (ofOperator operator).below

def ofRight (operator : String) (right : Expr) : Level :=
  if operator = "**" then power.below else ofOperand operator right (ofOperator operator)

end Level
end SiteCompiler.Script
