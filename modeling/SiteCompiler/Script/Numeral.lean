import SiteCompiler.Decimal.Shortest
import SiteCompiler.Json.Document
import SiteCompiler.Json.Printer

namespace SiteCompiler.Script.Numeral

structure Scaled where
  significand : Nat
  exponent : Int
deriving DecidableEq, Repr

def ofDigits (base : Nat) (digits : List Char) : Nat :=
  (digits.filterMap Json.Document.hexDigit?).foldl (fun n d => n * base + d) 0

def exponentOf (cs : List Char) : Int :=
  match cs with
  | _ :: '-' :: digits => -(ofDigits 10 digits : Int)
  | _ :: digits => ofDigits 10 digits
  | [] => 0

/-- What a literal spells; separators of digits count for nothing. A zero in front of octal digits
makes them count in base eight. -/
def read (literal : List Char) : Scaled :=
  match literal.filter (· ≠ '_') with
  | '0' :: radix :: digits =>
    if radix = 'x' || radix = 'X' then ⟨ofDigits 16 digits, 0⟩
    else if radix = 'o' || radix = 'O' then ⟨ofDigits 8 digits, 0⟩
    else if radix = 'b' || radix = 'B' then ⟨ofDigits 2 digits, 0⟩
    else if (radix :: digits).all isOctal then ⟨ofDigits 8 (radix :: digits), 0⟩
    else readDecimal ('0' :: radix :: digits)
  | cs => readDecimal cs
where
  isOctal (c : Char) : Bool := '0' ≤ c && c ≤ '7'
  readDecimal (cs : List Char) : Scaled :=
    let isMark (c : Char) : Bool := c = 'e' || c = 'E'
    let mantissa := cs.takeWhile (!isMark ·)
    let fraction := (mantissa.dropWhile (· ≠ '.')).drop 1
    ⟨ofDigits 10 (mantissa.filter (· ≠ '.')),
      exponentOf (cs.dropWhile (!isMark ·)) - fraction.length⟩

def Scaled.toFloat (n : Scaled) : Float :=
  Float.ofScientific n.significand (n.exponent < 0) n.exponent.natAbs

/-- The digits of a numeral with the point among them, where no exponent is needed. -/
def pointed? (whole : List Char) (n : Decimal.Numeral) : Option (List Char) :=
  let digits := Json.natDigits n.digits
  let point := (digits.length : Int) + n.exponent
  if 0 ≤ n.exponent ∧ point ≤ 21 then some (digits ++ List.replicate n.exponent.toNat '0')
  else if 0 < point ∧ point ≤ 21 then
    some (digits.take point.toNat ++ '.' :: digits.drop point.toNat)
  else if -6 < point ∧ point ≤ 0 then
    some (whole ++ '.' :: List.replicate (-point).toNat '0' ++ digits)
  else none

/-- The digits of a numeral with a point behind the first of them, and an exponent after a mark. -/
def withExponent (mark : Int → List Char) (n : Decimal.Numeral) : List Char :=
  let digits := Json.natDigits n.digits
  let fraction := if digits.length = 1 then [] else '.' :: digits.drop 1
  let exponent := (digits.length : Int) + n.exponent - 1
  digits.take 1 ++ fraction ++ 'e' :: mark exponent ++ Json.intDigits exponent

/-- The text of a numeral: with an exponent only from `1e21` on and below `1e-6`. -/
def plainText (n : Decimal.Numeral) : List Char :=
  (pointed? [] n).getD (withExponent (fun _ => []) n)

def shorter (first second : List Char) : List Char :=
  if second.length < first.length then second else first

def hexText (n : Nat) : List Char :=
  '0' :: 'x' :: Nat.toDigits 16 n

def withoutZeros (text : List Char) : List Char :=
  let rest := text.reverse.dropWhile (· = '0')
  rest.reverse ++ 'e' :: Json.natDigits (text.length - rest.length)

/-- The text of digits behind a point and zeros, as digits with an exponent. -/
def withoutLeadingZeros (text : List Char) : List Char :=
  let digits := (text.drop 1).dropWhile (· = '0')
  digits ++ 'e' :: '-' :: Json.natDigits (text.length - 1)

/-- A text with a point and an exponent, with the point moved behind the last digit. -/
def withoutPoint (n : Decimal.Numeral) : List Char :=
  Json.natDigits n.digits ++ 'e' :: Json.intDigits n.exponent

def isHex (text : List Char) : Bool :=
  text.contains 'x'

def wholeText (value : Nat) (plain : List Char) : List Char :=
  let best := shorter plain (hexText value)
  if !isHex best && best.getLast? = some '0' then shorter best (withoutZeros best) else best

def fractionText (plain : List Char) : List Char :=
  if ['.', '0'].isPrefixOf plain then shorter plain (withoutLeadingZeros plain) else plain

def floorOf (b : Decimal.Binary) : Nat :=
  b.significand * Nat.pow 2 b.exponent.toNat / Nat.pow 2 (-b.exponent).toNat

/-- The shortest text of a positive number; small whole numbers are written as they are. -/
def shortText (b : Decimal.Binary) : List Char :=
  let n := Decimal.shortest b
  let plain := plainText n
  let best :=
    if 0 ≤ n.exponent then
      if floorOf b < 1000 then plain else wholeText (floorOf b) plain
    else fractionText plain
  if best.contains '.' && best.contains 'e' then shorter best (withoutPoint n) else best

def magnitude (f : Float) : Decimal.Binary :=
  Decimal.Binary.ofBits (f.toBits.toNat % Nat.pow 2 63)

def isSigned (f : Float) : Bool :=
  Nat.pow 2 63 ≤ f.toBits.toNat

def display (f : Float) : String :=
  if f.isNaN then "NaN"
  else
    let sign := if isSigned f && f != 0 then ['-'] else []
    let plus (e : Int) : List Char := if 0 ≤ e then ['+'] else []
    let size :=
      if f.isInf then "Infinity".toList
      else if (magnitude f).significand = 0 then ['0']
      else
        let n := Decimal.shortest (magnitude f)
        (pointed? ['0'] n).getD (withExponent plus n)
    .ofList (sign ++ size)

def ofFloat (f : Float) : String :=
  if f.isInf then "Infinity"
  else
    let size := magnitude f
    if size.significand = 0 then "0" else .ofList (shortText size)

/-- The literal that a number is written as; a whole number of any size keeps its mark. -/
def shortest (literal : String) : String :=
  let cs := literal.toList
  if cs.getLast? = some 'n' && cs.length > 1 then
    .ofList (Json.natDigits (read cs.dropLast).significand ++ ['n'])
  else ofFloat (read cs).toFloat

/-- The double that a literal stands for, unless it is a whole number of any size. -/
def toFloat? (literal : String) : Option Float :=
  let cs := literal.toList
  if cs.getLast? = some 'n' && cs.length > 1 then none
  else if literal = "Infinity" then some (1 / 0)
  else some (read cs).toFloat

end SiteCompiler.Script.Numeral
