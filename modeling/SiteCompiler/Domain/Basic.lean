import SiteCompiler.Domain.Direction
import SiteCompiler.Domain.Joining
import SiteCompiler.Domain.Mapping
import SiteCompiler.Domain.Punycode

namespace SiteCompiler.Domain

open Text

def isForbidden (c : Char) : Bool :=
  c.toNat ≤ 0x20 || c.toNat = 0x7f || "%#/:<>?@[\\]^|".toList.contains c

def isMark (c : Char) : Bool :=
  Category.nonspacingMarks.contains c || Category.spacingMarks.contains c
    || Category.enclosingMarks.contains c

def isValidLabel (label : List Char) : Bool :=
  !label.head?.any isMark && Joining.isPlaced [] label

/-- The label that an encoded one stands for; it must have characters beyond ASCII, be in the form
that every label is brought into, and be encoded in the one possible way. -/
def decodeLabel? (encoded : List Char) : Option (List Char) := do
  let label ← Punycode.decode? encoded
  let isCanonical := label.all isFixed && Composition.compose label = label
  if label.any (128 ≤ ·.toNat) && isCanonical && Punycode.encode label = encoded then some label
  else none

/-- The longest label that is encoded, and the longest text that is decoded. -/
def encodeLimit : Nat := 1000
def decodeLimit : Nat := 2000

def encodedStart : List Char := "xn--".toList

structure Label where
  read : List Char
  ascii : List Char
deriving DecidableEq, Repr

/-- The label of a name whose characters are replaced by what they stand for. -/
def label? (mapped : List Char) : Option Label := do
  match encodedStart.isPrefixOf? mapped with
  | some encoded =>
    guard (encoded.length ≤ decodeLimit)
    let label ← decodeLabel? encoded
    guard (isValidLabel label)
    return ⟨label, mapped⟩
  | none =>
    if mapped.all (·.toNat < 128) then return ⟨mapped, mapped⟩
    guard (isValidLabel mapped && mapped.length ≤ encodeLimit)
    return ⟨mapped, encodedStart ++ Punycode.encode mapped⟩

def ascii? (name : List Char) : Option (List Char) := do
  let mapped := Composition.compose (← name.mapM mapChar?).flatten
  guard (!mapped.any isForbidden)
  let labels ← (mapped.splitOn '.').mapM label?
  guard (directionsAgree (labels.map (·.read)))
  guard (!(labels.any fun l => l.read.any isForbidden))
  return ['.'].intercalate (labels.map (·.ascii))

end SiteCompiler.Domain
