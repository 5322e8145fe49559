import SiteCompiler.Digest
import SiteCompiler.Text.Cutting

namespace SiteCompiler

/-- The index of a dependency and the octet of the code at which its hash starts. -/
structure HashSlot where
  dependency : UInt64
  offset : UInt64
deriving DecidableEq, Repr

namespace HashSlot

/-- The octet at which a slot ends. The sum is one of words: behind the last of them it starts again
at zero. -/
def stop (slot : HashSlot) : UInt64 :=
  slot.offset + .ofNat Digest.prefixLength

/-- What precedes a slot, what is in it, and what follows; `none` if it ends before it starts, the
code ends in it, or a character lies across an edge. -/
def cut? (code : List Char) (slot : HashSlot) : Option (List Char × List Char × List Char) := do
  guard (slot.offset ≤ slot.stop)
  let (before, rest) ← Digest.splitAtOctet slot.offset.toNat code
  let (inside, after) ← Digest.splitAtOctet (slot.stop - slot.offset).toNat rest
  return (before, inside, after)

def usable? (hashes : List String) (dependency : Nat) : Option String :=
  hashes[dependency]?.filter fun h => Digest.prefixLength ≤ h.utf8ByteSize

/-- Writes the start of a dependency's hash into its slot, where there is one; tells whether the
code changed. There is no result when the ninth octet of the hash lies inside a character. -/
def fillOne (hashes : List String) (code : List Char) (slot : HashSlot) :
    Option (Bool × List Char) :=
  match usable? hashes slot.dependency.toNat with
  | none => some (false, code)
  | some hash => do
    let (start, _) ← Digest.splitAtOctet Digest.prefixLength hash.toList
    match cut? code slot with
    | none => return (false, code)
    | some (before, inside, after) =>
      if inside = start then return (false, code) else return (true, before ++ start ++ after)

def fillAll (hashes : List String) : Bool → List Char → List HashSlot → Option (Bool × List Char)
  | changed, code, [] => some (changed, code)
  | changed, code, slot :: rest => do
    let (now, code) ← fillOne hashes code slot
    fillAll hashes (changed || now) code rest

/-- Fills the slots one after the other, and tells whether the code changed. -/
def fill (code : String) (slots : List HashSlot) (hashes : List String) : Option (Bool × String) :=
  (fillAll hashes false code.toList slots).map fun (changed, code) => (changed, .ofList code)

def valid (code : String) (slots : List HashSlot) : Bool :=
  slots.all fun slot =>
    match cut? code.toList slot with
    | some (_, inside, _) => inside.all Char.isAlphanum
    | none => false

end HashSlot
end SiteCompiler
