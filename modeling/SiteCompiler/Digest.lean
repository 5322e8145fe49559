namespace SiteCompiler.Digest

structure Chain where
  a : UInt32
  b : UInt32
  c : UInt32
  d : UInt32
  e : UInt32

def Chain.start : Chain :=
  ⟨0x67452301, 0xefcdab89, 0x98badcfe, 0x10325476, 0xc3d2e1f0⟩

def rotateLeft (x : UInt32) (n : UInt32) : UInt32 :=
  (x <<< n) ||| (x >>> (32 - n))

/-- The message followed by `0x80`, zeros up to 56 modulo 64, and its length in bits. -/
def padded (message : ByteArray) : ByteArray :=
  let zeros := (119 - message.size % 64) % 64
  let bits := message.size * 8
  let length := (List.range 8).map fun i => (bits >>> (8 * (7 - i))).toUInt8
  message ++ (0x80 :: List.replicate zeros 0 ++ length).toByteArray

def wordAt (bytes : ByteArray) (i : Nat) : UInt32 :=
  (List.range 4).foldl (fun w k => (w <<< 8) ||| (bytes[i + k]?.getD 0).toUInt32) 0

/-- The eighty words of a block's schedule: its own sixteen, then each from four earlier ones. -/
def schedule (bytes : ByteArray) (start : Nat) : Array UInt32 :=
  let own := (Array.range 16).map fun i => wordAt bytes (start + 4 * i)
  (List.range 64).foldl (fun w i =>
    let back (k : Nat) := w[16 + i - k]?.getD 0
    w.push (rotateLeft (back 3 ^^^ back 8 ^^^ back 14 ^^^ back 16) 1)) own

def roundFunction (round : Nat) (b c d : UInt32) : UInt32 × UInt32 :=
  if round < 20 then ((b &&& c) ||| (~~~b &&& d), 0x5a827999)
  else if round < 40 then (b ^^^ c ^^^ d, 0x6ed9eba1)
  else if round < 60 then ((b &&& c) ||| (b &&& d) ||| (c &&& d), 0x8f1bbcdc)
  else (b ^^^ c ^^^ d, 0xca62c1d6)

def step (words : Array UInt32) (s : Chain) (round : Nat) : Chain :=
  let (f, k) := roundFunction round s.b s.c s.d
  ⟨rotateLeft s.a 5 + f + s.e + k + words[round]?.getD 0, s.a, rotateLeft s.b 30, s.c, s.d⟩

def compressBlock (bytes : ByteArray) (h : Chain) (block : Nat) : Chain :=
  let s := (List.range 80).foldl (step (schedule bytes (64 * block))) h
  ⟨h.a + s.a, h.b + s.b, h.c + s.c, h.d + s.d, h.e + s.e⟩

def sha1 (message : ByteArray) : Chain :=
  let bytes := padded message
  (List.range (bytes.size / 64)).foldl (compressBlock bytes) Chain.start

def hexDigit (n : Nat) : Char :=
  if n < 10 then Char.ofNat (48 + n) else Char.ofNat (87 + n)

def hexWord (w : UInt32) : List Char :=
  (List.range 8).map fun i => hexDigit (w.toNat >>> (4 * (7 - i)) % 16)

def ofBytes (bytes : ByteArray) : String :=
  let h := sha1 bytes
  .ofList ([h.a, h.b, h.c, h.d, h.e].flatMap hexWord)

def contentHash (text : String) : String :=
  ofBytes text.toUTF8

def prefixLength : Nat := 9

/-- Divides a list of characters after `n` octets of UTF-8; `none` when it is shorter or when the
cut would fall inside a character. -/
def splitAtOctet : Nat → List Char → Option (List Char × List Char)
  | 0, cs => some ([], cs)
  | _ + 1, [] => none
  | n + 1, c :: cs =>
    if c.utf8Size ≤ n + 1 then
      (splitAtOctet (n + 1 - c.utf8Size) cs).map fun (l, r) => (c :: l, r)
    else none

/-- The first nine octets of a hash, or all of a hash that cannot be cut there. -/
def hashPrefix (hash : String) : String :=
  match splitAtOctet prefixLength hash.toList with
  | some (start, _) => .ofList start
  | none => hash

end SiteCompiler.Digest
