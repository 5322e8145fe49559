import SiteCompiler.Json.Document

namespace SiteCompiler.Json

/-- The characters of a string; a unit of a surrogate pair denotes nothing alone. -/
def Piece.chars? : List Piece → Option (List Char)
  | [] => some []
  | .char c :: rest => (chars? rest).map (c :: ·)
  | .unit n :: .unit m :: rest =>
    if 0xd800 ≤ n ∧ n < 0xdc00 then
      if 0xdc00 ≤ m ∧ m < 0xe000 then
        (chars? rest).map (Char.ofNat (0x10000 + (n - 0xd800) * 0x400 + (m - 0xdc00)) :: ·)
      else none
    else if 0xdc00 ≤ n ∧ n < 0xe000 then none
    else (chars? (.unit m :: rest)).map (Char.ofNat n :: ·)
  | .unit n :: rest =>
    if 0xd800 ≤ n ∧ n < 0xe000 then none else (chars? rest).map (Char.ofNat n :: ·)

def Piece.text? (pieces : List Piece) : Option String :=
  (Piece.chars? pieces).map String.ofList

namespace NumberToken

def maxWord : Nat := Nat.pow 2 64 - 1

/-- Takes in digits while the number stays within 64 bits; the rest is returned unread. -/
def takeDigits (n : Nat) : List Nat → Nat × List Nat
  | [] => (n, [])
  | d :: rest => if n * 10 + d ≤ maxWord then takeDigits (n * 10 + d) rest else (n, d :: rest)

/-- `f * 10 ^ e`, computed with one rounding where the power is finite; `none` on overflow. -/
def scale : Nat → Float → Int → Option Float
  | 0, f, _ => some f
  | steps + 1, f, e =>
    if e.natAbs ≤ 308 then
      let power := Float.ofScientific 1 false e.natAbs
      if 0 ≤ e then
        if (f * power).isInf then none else some (f * power)
      else some (f / power)
    else if f == 0 then some f
    else if 0 ≤ e then none
    else scale steps (f / Float.ofScientific 1 false 308) (e + 308)

/-- The number that a token denotes: an integer if it has neither point nor exponent and fits into
64 bits, else a float. -/
def value? (t : NumberToken) : Option Number :=
  let (significand, dropped) := takeDigits 0 t.whole
  match t.fraction, t.exponent, dropped with
  | none, none, [] =>
    if !t.negative then some (.integer significand)
    else if 0 < significand ∧ significand ≤ Nat.pow 2 63 then some (.integer (-significand))
    else some (.float (-Float.ofNat significand))
  | fraction, exponent, dropped =>
    let digits := fraction.getD []
    let (significand, unread) := takeDigits significand digits
    let shift : Int := (dropped.length : Int) - ((digits.length : Int) - unread.length)
    let shift := match exponent with
      | none => shift
      | some (false, ds) => shift + (ds.foldl (fun n d => n * 10 + d) 0 : Nat)
      | some (true, ds) => shift - (ds.foldl (fun n d => n * 10 + d) 0 : Nat)
    (scale 4 (Float.ofNat significand) shift).map fun f => .float (if t.negative then -f else f)

end NumberToken

namespace Document

def maxDepth : Nat := 127

mutual

def value? (depth : Nat) : Document → Option Json
  | .null => some .null
  | .bool b => some (.bool b)
  | .number t => t.value?.map .number
  | .string pieces => (Piece.text? pieces).map .string
  | .array elements =>
    match depth with
    | 0 => none
    | depth + 1 => (values? depth elements).map .array
  | .object members =>
    match depth with
    | 0 => none
    | depth + 1 => (members? depth members).map fun ms => .object (sortMembers ms)

def values? (depth : Nat) : List Document → Option (List Json)
  | [] => some []
  | d :: rest => do
    let v ← d.value? depth
    let vs ← values? depth rest
    return v :: vs

def members? (depth : Nat) : List (List Piece × Document) → Option (List (String × Json))
  | [] => some []
  | (key, d) :: rest => do
    let k ← Piece.text? key
    let v ← d.value? depth
    let ms ← members? depth rest
    return (k, v) :: ms

end

def string? : Document → Option String
  | .string pieces => Piece.text? pieces
  | _ => none

def bool? : Document → Option Bool
  | .bool b => some b
  | _ => none

/-- A natural number of at most 64 bits, written without point and exponent. -/
def word? : Document → Option UInt64
  | .number t =>
    match t.value? with
    | some (.integer (.ofNat n)) => some (.ofNat n)
    | _ => none
  | _ => none

def list? (f : Document → Option α) : Document → Option (List α)
  | .array elements => elements.mapM f
  | _ => none

/-- The named fields among an object's members: each at most once, others passed over. -/
def pickField? (name : String) (members : List (String × Document)) :
    Option (Option Document) :=
  match members.filter (·.1 = name) with
  | [] => some none
  | [(_, d)] => some (some d)
  | _ => none

/-- The fields of a record, in the order of `names`; a record is written as an object, or as an
array of its fields that may stop early. -/
def fields? (names : List String) : Document → Option (List (Option Document))
  | .object members => do
    let keyed ← members.mapM fun (key, d) => (Piece.text? key).map fun k => (k, d)
    names.mapM fun name => pickField? name keyed
  | .array elements =>
    if elements.length ≤ names.length then
      some (elements.map some ++ List.replicate (names.length - elements.length) none)
    else none
  | _ => none

def required? (f : Document → Option α) (field : Option Document) : Option α :=
  field.bind f

def withDefault? (default : α) (f : Document → Option α) : Option Document → Option α
  | none => some default
  | some d => f d

def stringMap? : Document → Option (List (String × String))
  | .object members => do
    let pairs ← members.mapM fun (key, d) => do
      let k ← Piece.text? key
      let v ← d.string?
      return (k, v)
    return sortMembers pairs
  | _ => none

end Document

def parse? (text : String) : Option Json :=
  (Document.read? text).bind (Document.value? Document.maxDepth)

end SiteCompiler.Json
