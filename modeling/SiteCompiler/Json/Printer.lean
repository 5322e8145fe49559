import SiteCompiler.Decimal.Shortest
import SiteCompiler.Json.Basic

namespace SiteCompiler.Json

def hexDigit (n : Nat) : Char :=
  if n < 10 then Char.ofNat (48 + n) else Char.ofNat (87 + n)

def escapeChar (c : Char) : List Char :=
  match c with
  | '"' => ['\\', '"']
  | '\\' => ['\\', '\\']
  | '\n' => ['\\', 'n']
  | '\r' => ['\\', 'r']
  | '\t' => ['\\', 't']
  | '\x08' => ['\\', 'b']
  | '\x0c' => ['\\', 'f']
  | c =>
    if c.toNat < 0x20 then ['\\', 'u', '0', '0', hexDigit (c.toNat / 16), hexDigit (c.toNat % 16)]
    else [c]

def quote (s : String) : List Char :=
  '"' :: s.toList.flatMap escapeChar ++ ['"']

def natDigits (n : Nat) : List Char :=
  Nat.toDigits 10 n

def intDigits : Int → List Char
  | .ofNat n => natDigits n
  | .negSucc n => '-' :: natDigits (n + 1)

/-- A numeral with a point when its exponent is small: positional from `1e-5` up to `1e16`,
otherwise one digit before the point and an exponent. -/
def numeralText (n : Decimal.Numeral) : List Char :=
  let digits := natDigits n.digits
  let length : Int := digits.length
  let point := length + n.exponent
  if 0 ≤ n.exponent ∧ point ≤ 16 then
    digits ++ List.replicate n.exponent.toNat '0' ++ ['.', '0']
  else if 0 < point ∧ point ≤ 16 then
    digits.take point.toNat ++ '.' :: digits.drop point.toNat
  else if -5 < point ∧ point ≤ 0 then
    '0' :: '.' :: List.replicate (-point).toNat '0' ++ digits
  else
    let fraction := if digits.length = 1 then [] else '.' :: digits.drop 1
    digits.take 1 ++ fraction ++ 'e' :: intDigits (point - 1)

/-- A floating-point number in the fewest digits that read back; what is not finite is `null`. -/
def floatText (f : Float) : List Char :=
  if f.isNaN || f.isInf then "null".toList
  else
    let sign := if f.toBits >>> 63 = 1 then ['-'] else []
    let magnitude := Decimal.Binary.ofBits (f.toBits.toNat % Nat.pow 2 63)
    if magnitude.significand = 0 then sign ++ "0.0".toList
    else sign ++ numeralText (Decimal.shortest magnitude)

def Number.text : Number → List Char
  | .integer i => intDigits i
  | .float f => floatText f

mutual

def compactChars : Json → List Char
  | .null => "null".toList
  | .bool true => "true".toList
  | .bool false => "false".toList
  | .number n => n.text
  | .string s => quote s
  | .array elements => '[' :: compactElements elements ++ [']']
  | .object members => '\x7b' :: compactMembers members ++ ['\x7d']

def compactElements : List Json → List Char
  | [] => []
  | [v] => compactChars v
  | v :: w :: rest => compactChars v ++ ',' :: compactElements (w :: rest)

def compactMembers : List (String × Json) → List Char
  | [] => []
  | [(k, v)] => quote k ++ ':' :: compactChars v
  | (k, v) :: w :: rest => quote k ++ ':' :: compactChars v ++ ',' :: compactMembers (w :: rest)

end

def compact (v : Json) : String :=
  .ofList (compactChars v)

def newline (depth : Nat) : List Char :=
  '\n' :: List.replicate (2 * depth) ' '

mutual

/-- The value with one element or member a line; `depth` is that of its own line. -/
def prettyChars (depth : Nat) : Json → List Char
  | .array [] => ['[', ']']
  | .array (v :: rest) => '[' :: prettyElements (depth + 1) (v :: rest) ++ newline depth ++ [']']
  | .object [] => ['\x7b', '\x7d']
  | .object (m :: rest) =>
    '\x7b' :: prettyMembers (depth + 1) (m :: rest) ++ newline depth ++ ['\x7d']
  | .null => "null".toList
  | .bool true => "true".toList
  | .bool false => "false".toList
  | .number n => n.text
  | .string s => quote s

def prettyElements (depth : Nat) : List Json → List Char
  | [] => []
  | [v] => newline depth ++ prettyChars depth v
  | v :: w :: rest =>
    newline depth ++ prettyChars depth v ++ ',' :: prettyElements depth (w :: rest)

def prettyMembers (depth : Nat) : List (String × Json) → List Char
  | [] => []
  | [(k, v)] => newline depth ++ quote k ++ ':' :: ' ' :: prettyChars depth v
  | (k, v) :: w :: rest =>
    newline depth ++ quote k ++ ':' :: ' ' :: prettyChars depth v
      ++ ',' :: prettyMembers depth (w :: rest)

end

def pretty (v : Json) : String :=
  .ofList (prettyChars 0 v)

end SiteCompiler.Json
