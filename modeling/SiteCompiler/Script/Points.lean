import SiteCompiler.Json.Printer

namespace SiteCompiler.Script

abbrev Points := List Nat

namespace Points

def ofString (text : String) : Points :=
  text.toList.map Char.toNat

def isHighSurrogate (n : Nat) : Bool :=
  0xD800 ≤ n && n < 0xDC00

def isLowSurrogate (n : Nat) : Bool :=
  0xDC00 ≤ n && n < 0xE000

def isSurrogate (n : Nat) : Bool :=
  0xD800 ≤ n && n < 0xE000

def ofPair (high low : Nat) : Nat :=
  0x10000 + (high - 0xD800) * 0x400 + (low - 0xDC00)

def hexUnit (n : Nat) : List Char :=
  [n / 4096, n / 256, n / 16, n].map fun k => Json.hexDigit (k % 16)

def replacementCharacter : Char := '\ufffd'

/-- The value as a text: a lone surrogate is a replacement character before its digits, and where
there is one, so is a replacement character itself. -/
def toText (value : Points) : String :=
  let isLossy := value.any isSurrogate
  .ofList <| value.flatMap fun n =>
    if isSurrogate n || isLossy && n = replacementCharacter.toNat then
      replacementCharacter :: hexUnit n
    else [Char.ofNat n]

/-- A code point as it is written between double quotes, before the code point `next?`. -/
def escape (n : Nat) (next? : Option Nat) : List Char :=
  let isBeforeDigit := (next?.map fun n => 48 ≤ n && n < 58).getD false
  if isSurrogate n then '\\' :: 'u' :: hexUnit n
  else match Char.ofNat n with
    | '\x00' => if isBeforeDigit then "\\x00".toList else "\\0".toList
    | '\x07' => "\\x07".toList
    | '\x08' => "\\b".toList
    | '\n' => "\\n".toList
    | '\x0b' => "\\v".toList
    | '\x0c' => "\\f".toList
    | '\r' => "\\r".toList
    | '\x1b' => "\\x1B".toList
    | '\\' => "\\\\".toList
    | '"' => "\\\"".toList
    | '\u00a0' => "\\xA0".toList
    | '\u2028' => "\\u2028".toList
    | '\u2029' => "\\u2029".toList
    | c => [c]

def closesScript : Points :=
  ofString "</script"

/-- Whether a value starts with a closing script tag, in letters of either case. -/
def startsClosingScript (value : Points) : Bool :=
  (value.take closesScript.length).map (fun n => if 65 ≤ n ∧ n ≤ 90 then n + 32 else n)
    = closesScript

/-- A value as it is written between double quotes; a closing script tag is broken up. -/
def content : Points → List Char
  | [] => []
  | n :: rest =>
    (if startsClosingScript (n :: rest) then ['<', '\\'] else escape n rest.head?) ++ content rest

def quoted (value : Points) : List Char :=
  '"' :: content value ++ ['"']

def guard : List Char → List Char
  | [] => []
  | c :: rest =>
    (if startsClosingScript ((c :: rest).map Char.toNat) then ['<', '\\'] else [c]) ++ guard rest

end Points
end SiteCompiler.Script
