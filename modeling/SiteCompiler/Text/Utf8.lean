namespace SiteCompiler.Text.Utf8

def encodeChar (c : Char) : List UInt8 :=
  let n := c.toNat
  if n < 0x80 then [n.toUInt8]
  else if n < 0x800 then [(0xc0 + n / 0x40).toUInt8, (0x80 + n % 0x40).toUInt8]
  else if n < 0x10000 then
    [(0xe0 + n / 0x1000).toUInt8, (0x80 + n / 0x40 % 0x40).toUInt8, (0x80 + n % 0x40).toUInt8]
  else
    [(0xf0 + n / 0x40000).toUInt8, (0x80 + n / 0x1000 % 0x40).toUInt8,
      (0x80 + n / 0x40 % 0x40).toUInt8, (0x80 + n % 0x40).toUInt8]

def encode (s : String) : List UInt8 :=
  s.toList.flatMap encodeChar

/-- How many octets must follow a leading octet, and the range of the first of them. -/
def following (lead : UInt8) : Option (Nat × UInt8 × UInt8) :=
  if lead < 0x80 then some (0, 0x80, 0xbf)
  else if 0xc2 ≤ lead ∧ lead ≤ 0xdf then some (1, 0x80, 0xbf)
  else if lead = 0xe0 then some (2, 0xa0, 0xbf)
  else if lead = 0xed then some (2, 0x80, 0x9f)
  else if 0xe1 ≤ lead ∧ lead ≤ 0xef then some (2, 0x80, 0xbf)
  else if lead = 0xf0 then some (3, 0x90, 0xbf)
  else if 0xf1 ≤ lead ∧ lead ≤ 0xf3 then some (3, 0x80, 0xbf)
  else if lead = 0xf4 then some (3, 0x80, 0x8f)
  else none

/-- Reads `count` continuation octets; `none` for the character when one is missing or out of
range, with the octets that are left to read. -/
def continueChar (value : Nat) : Nat → UInt8 → UInt8 → List UInt8 → Option Char × List UInt8
  | 0, _, _, rest => (some (Char.ofNat value), rest)
  | _ + 1, _, _, [] => (none, [])
  | count + 1, low, high, b :: rest =>
    if low ≤ b ∧ b ≤ high then continueChar (value * 0x40 + b.toNat % 0x40) count 0x80 0xbf rest
    else (none, b :: rest)

def leadBits (lead : UInt8) (count : Nat) : Nat :=
  match count with
  | 0 => lead.toNat
  | 1 => lead.toNat % 0x20
  | 2 => lead.toNat % 0x10
  | _ => lead.toNat % 0x08

theorem continueChar_length_le (value count : Nat) (low high : UInt8) (bs : List UInt8) :
    (continueChar value count low high bs).2.length ≤ bs.length := by
  induction bs generalizing value count low high with
  | nil => cases count <;> simp [continueChar]
  | cons b rest ih =>
    cases count with
    | zero => simp [continueChar]
    | succ n =>
      simp only [continueChar]
      split
      · exact Nat.le_succ_of_le (ih ..)
      · simp

/-- The characters of octets, with the given ones for each ill-formed stretch. -/
def decodeWith (substitute : List Char) (bytes : List UInt8) : List Char :=
  match bytes with
  | [] => []
  | lead :: rest =>
    match following lead with
    | none => substitute ++ decodeWith substitute rest
    | some (count, low, high) =>
      ((continueChar (leadBits lead count) count low high rest).1.map ([·])).getD substitute
        ++ decodeWith substitute (continueChar (leadBits lead count) count low high rest).2
termination_by bytes.length
decreasing_by
  · simp
  · exact Nat.lt_succ_of_le (continueChar_length_le ..)

/-- The characters of octets; each ill-formed stretch counts as one replacement character. -/
def decodeLossy (bytes : List UInt8) : List Char :=
  decodeWith ['\ufffd'] bytes

def decode? (bytes : ByteArray) : Option String :=
  String.fromUTF8? bytes

end SiteCompiler.Text.Utf8
