import SiteCompiler.Text.Utf8

namespace SiteCompiler.Text.Percent

def hexDigit (n : Nat) : Char :=
  if n < 10 then Char.ofNat (48 + n) else Char.ofNat (55 + n)

def hexValue? (c : Char) : Option Nat :=
  if '0' ≤ c ∧ c ≤ '9' then some (c.toNat - 48)
  else if 'A' ≤ c ∧ c ≤ 'F' then some (c.toNat - 55)
  else if 'a' ≤ c ∧ c ≤ 'f' then some (c.toNat - 87)
  else none

def encodeOctet (b : UInt8) : List Char :=
  ['%', hexDigit (b.toNat / 16), hexDigit (b.toNat % 16)]

/-- Control characters and everything beyond ASCII, which every set of escapes contains. -/
def isControlOrWide (c : Char) : Bool :=
  c.toNat < 0x20 || 0x7f ≤ c.toNat

def encodeChar (escaped : Char → Bool) (c : Char) : List Char :=
  if escaped c || isControlOrWide c then (Utf8.encodeChar c).flatMap encodeOctet else [c]

/-- Escapes the octets of the characters in the set, of controls and of all that is not ASCII. -/
def encode (escaped : Char → Bool) (s : String) : String :=
  .ofList (s.toList.flatMap (encodeChar escaped))

/-- The octets that a text spells; a `%` without two digits stands for itself. -/
def octets : List Char → List UInt8
  | [] => []
  | '%' :: h :: l :: rest =>
    match hexValue? h, hexValue? l with
    | some a, some b => (a * 16 + b).toUInt8 :: octets rest
    | _, _ => 0x25 :: octets (h :: l :: rest)
  | c :: rest => Utf8.encodeChar c ++ octets rest

/-- The text that the decoded octets spell, with replacement characters where they spell none. -/
def decodeLossy (s : String) : String :=
  .ofList (Utf8.decodeLossy (octets s.toList))

end SiteCompiler.Text.Percent
