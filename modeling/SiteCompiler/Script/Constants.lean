import SiteCompiler.Script.Numeral
import SiteCompiler.Script.Token
import SiteCompiler.Script.Syntax

namespace SiteCompiler.Script

inductive Constant where
  | number (f : Float)
  | text (value : Points)
deriving Repr

namespace Constant

def toPoints : Constant → Points
  | number f => Points.ofString (Numeral.display f)
  | text value => value

def toExpr : Constant → Expr
  | text value => .string value
  | number f =>
    if f.isNaN then .number "NaN"
    else if f < 0 then .unary "-" (size (-f))
    else if f == 0 && Numeral.isSigned f then .number "-0"
    else size f
where
  size (f : Float) : Expr := if f.isInf then .name "Infinity" else .number (Numeral.ofFloat f)

/-! ### Whole numbers in a word -/

def whole (f : Float) : Nat :=
  if f.isNaN || f.isInf then 0 else Numeral.floorOf (Numeral.magnitude f)

def word (f : Float) : BitVec 32 :=
  if Numeral.isSigned f then -(BitVec.ofNat 32 (whole f)) else BitVec.ofNat 32 (whole f)

def ofWord (b : BitVec 32) : Float :=
  .ofInt b.toInt

/-- What is left of `a` when `b` is taken away from it as often as possible. -/
def remainder (a b : Float) : Float :=
  if a.isNaN || b.isNaN || a.isInf || b == 0 then 0 / 0
  else if b.isInf then a
  else
    let x := Numeral.magnitude a
    let y := Numeral.magnitude b
    let e := min x.exponent y.exponent
    let whole := x.significand * Nat.pow 2 (x.exponent - e).toNat
    let part := y.significand * Nat.pow 2 (y.exponent - e).toNat
    let size := (Float.ofNat (whole % part)).scaleB e
    if Numeral.isSigned a then -size else size

/-! ### Operators -/

def places (f : Float) : Nat :=
  (word f).toNat % 32

def operate? (operator : String) (a b : Float) : Option Float :=
  match operator with
  | "+" => some (a + b)
  | "-" => some (a - b)
  | "*" => some (a * b)
  | "/" => some (a / b)
  | "%" => some (remainder a b)
  | "**" => some (a ^ b)
  | "|" => some (ofWord (word a ||| word b))
  | "&" => some (ofWord (word a &&& word b))
  | "^" => some (ofWord (word a ^^^ word b))
  | "<<" => some (ofWord (word a <<< places b))
  | ">>" => some (ofWord ((word a).sshiftRight (places b)))
  | ">>>" => some (.ofNat (word a >>> places b).toNat)
  | _ => none

def combine? (operator : String) : Constant → Constant → Option Constant
  | number a, number b => (operate? operator a b).map number
  | a, b => if operator = "+" then some (text (a.toPoints ++ b.toPoints)) else none

def ofOperation? (operator : String) : Constant → Option Constant
  | text value =>
    match operator with
    | "-" => some (number (0 / 0))
    | "~" => some (number (-1))
    | _ => some (text value)
  | number f =>
    match operator with
    | "+" => some (number f)
    | "-" => some (number (-f))
    | "~" => some (number (ofWord (~~~ word f)))
    | _ => none

/-! ### Expressions -/

/-- The members of enumerations by name, with what they are known to be, the latest first. -/
abbrev Members := List (String × Option Constant)

abbrev Enumerations := List (String × Members)

def plainTemplate? : Expr → Option Points
  | .template [raw] [] => Token.cooked? raw
  | _ => none

def member? : Expr → Option (String × String)
  | .property (.name enum) false name => some (enum, name)
  | .element (.name enum) false (.string key) => some (enum, key.toText)
  | .element (.name enum) false index => (plainTemplate? index).map fun key => (enum, key.toText)
  | _ => none

def named? (known : Members) (name : String) : Option Constant :=
  match name with
  | "Infinity" => some (number (1 / 0))
  | "NaN" => some (number (0 / 0))
  | name => (known.lookup name).join

mutual

/-- What an expression is known to be, given the members so far and the enumerations before. -/
def ofExpr? (known : Members) (others : Enumerations) : Expr → Option Constant
  | .number literal => (Numeral.toFloat? literal).map number
  | .string value => some (text value)
  | .template texts values => (ofTemplate? known others texts values).map text
  | .parens e => ofExpr? known others e
  | .name name => named? known name
  | .unary operator e => do ofOperation? operator (← ofExpr? known others e)
  | .binary operator a b => do
    combine? operator (← ofExpr? known others a) (← ofExpr? known others b)
  | e => do
    let (enum, name) ← member? e
    let members ← others.lookup enum
    (members.lookup name).join

def ofTemplate? (known : Members) (others : Enumerations) (texts : List String) :
    List Expr → Option Points
  | [] => (texts.head?).bind Token.cooked?
  | e :: rest => do
    let start ← (texts.head?).bind Token.cooked?
    let value ← ofExpr? known others e
    return start ++ value.toPoints ++ (← ofTemplate? known others (texts.drop 1) rest)

end

end Constant
end SiteCompiler.Script
