import SiteCompiler.Domain.Basic
import SiteCompiler.Text.Cutting
import SiteCompiler.Text.Percent
import SiteCompiler.Text.Utf8

namespace SiteCompiler.Url

inductive Error where
  | emptyHost
  | invalidDomain
  | invalidDomainCharacter
  | invalidPort
  | invalidIpv4
  | invalidIpv6
  | relativeWithoutBase
  | relativeWithOpaqueBase
deriving DecidableEq, Repr

def Error.message : Error → String
  | .emptyHost => "empty host"
  | .invalidDomain => "invalid international domain name"
  | .invalidDomainCharacter => "invalid domain character"
  | .invalidPort => "invalid port number"
  | .invalidIpv4 => "invalid IPv4 address"
  | .invalidIpv6 => "invalid IPv6 address"
  | .relativeWithoutBase => "relative URL without a base"
  | .relativeWithOpaqueBase => "relative URL with a cannot-be-a-base base"

inductive Host where
  | domain (name : String)
  | ipv4 (address : Nat)
  | ipv6 (pieces : List Nat)
deriving DecidableEq, Repr

namespace Host

def radixValue? (c : Char) : Option Nat :=
  Text.Percent.hexValue? c

def readRadix? (base : Nat) (digits : List Char) : Option Nat :=
  digits.foldlM (fun n c => do
    let d ← radixValue? c
    if d < base then return n * base + d else none) 0

/-- One part of an IPv4 address: hexadecimal after `0x`, octal after a needless zero. -/
def ipv4Part? : List Char → Option Nat
  | [] => none
  | '0' :: 'x' :: rest => readRadix? 16 rest
  | '0' :: 'X' :: rest => readRadix? 16 rest
  | '0' :: c :: rest => readRadix? 8 (c :: rest)
  | cs => readRadix? 10 cs

def dotParts (name : List Char) : List (List Char) :=
  match (name.splitOn '.').reverse with
  | [] :: front => front.reverse
  | parts => parts.reverse

def endsInNumber (name : List Char) : Bool :=
  match (dotParts name).getLast? with
  | none => false
  | some last => (!last.isEmpty && last.all Char.isDigit) || (ipv4Part? last).isSome

/-- The parts before the last are octets, and the last fills the octets that are left. -/
def ipv4? (name : List Char) : Except Error Nat :=
  let parts := dotParts name
  match (parts.mapM ipv4Part?).map List.reverse with
  | some (last :: front) =>
    if parts.length ≤ 4 && last < Nat.pow 256 (4 - front.length) && front.all (· < 256) then
      let weights := (List.range 4).map fun i => Nat.pow 256 (3 - i)
      .ok ((front.reverse.zip weights).foldl (fun sum (n, w) => sum + n * w) last)
    else .error .invalidIpv4
  | _ => .error .invalidIpv4

/-- Up to four hexadecimal digits at a time between colons; `::` may stand once. -/
def ipv6Group? (group : List Char) : Option Nat :=
  if group.isEmpty || 4 < group.length then none else readRadix? 16 group

def dottedTail? (tail : List Char) : Option (List Nat) := do
  let parts := tail.splitOn '.'
  let octets ← parts.mapM fun part =>
    match part with
    | ['0'] => some 0
    | '0' :: _ => none
    | part => if part.isEmpty || 3 < part.length then none else readRadix? 10 part
  match octets with
  | [a, b, c, d] =>
    if a < 256 && b < 256 && c < 256 && d < 256 then some [a * 256 + b, c * 256 + d] else none
  | _ => none

/-- The groups of one side of `::`; only the last of the address may be dotted. -/
def ipv6Groups? (dotted : Bool) (side : List Char) : Option (List Nat) :=
  if side.isEmpty then some []
  else
    let groups := side.splitOn ':'
    match groups.getLast? with
    | some last =>
      if dotted && last.contains '.' then do
        let front ← groups.dropLast.mapM ipv6Group?
        let tail ← dottedTail? last
        return front ++ tail
      else groups.mapM ipv6Group?
    | none => none

def cutDoubleColon : List Char → Option (List Char × List Char)
  | [] => none
  | ':' :: ':' :: rest => some ([], rest)
  | c :: rest => (cutDoubleColon rest).map fun (l, r) => (c :: l, r)

def ipv6? (text : List Char) : Except Error (List Nat) :=
  let pieces? := match cutDoubleColon text with
    | none => do
      let groups ← ipv6Groups? true text
      if groups.length = 8 then some groups else none
    | some (left, right) => do
      let front ← ipv6Groups? false left
      let back ← ipv6Groups? true right
      if front.length + back.length < 8 then
        some (front ++ List.replicate (8 - front.length - back.length) 0 ++ back)
      else none
  match pieces? with
  | some pieces => .ok pieces
  | none => .error .invalidIpv6

def hexText (n : Nat) : List Char :=
  Nat.toDigits 16 n

def zerosAt (pieces : List Nat) : Nat :=
  (pieces.takeWhile (· = 0)).length

/-- Where the longest run of two or more zeros starts, and its length; of equals the first. -/
def zeroRun (pieces : List Nat) : Option (Nat × Nat) :=
  (List.range pieces.length).foldl (fun best i =>
    let n := zerosAt (pieces.drop i)
    let longest := match best with
      | some (_, m) => m
      | none => 1
    if longest < n then some (i, n) else best) none

def joinColons (pieces : List Nat) : List Char :=
  [':'].intercalate (pieces.map hexText)

def ipv6Text (pieces : List Nat) : List Char :=
  match zeroRun pieces with
  | none => joinColons pieces
  | some (start, length) =>
    joinColons (pieces.take start) ++ [':', ':'] ++ joinColons (pieces.drop (start + length))

def ipv4Text (address : Nat) : List Char :=
  ['.'].intercalate
    ((List.range 4).map fun i => Nat.toDigits 10 (address / Nat.pow 256 (3 - i) % 256))

def text : Host → String
  | domain name => name
  | ipv4 address => .ofList (ipv4Text address)
  | ipv6 pieces => .ofList ('[' :: ipv6Text pieces ++ [']'])

def isLoopback : Host → Bool
  | domain name => Text.lowerAscii name = "localhost"
  | ipv4 address => address / Nat.pow 2 24 = 127 || address = 0
  | ipv6 pieces =>
    pieces = [0, 0, 0, 0, 0, 0, 0, 1] || pieces = [0, 0, 0, 0, 0, 0, 0, 0]

def parse (written : List Char) : Except Error Host :=
  match written with
  | '[' :: rest =>
    if rest.getLast? = some ']' then (ipv6? rest.dropLast).map .ipv6 else .error .invalidIpv6
  | _ =>
    match Domain.ascii? (Text.Utf8.decodeLossy (Text.Percent.octets written)) with
    | none => .error .invalidDomain
    | some [] => .error .emptyHost
    | some name =>
      if endsInNumber name then (ipv4? name).map .ipv4 else .ok (.domain (.ofList name))

def parseOpaque (written : List Char) : Except Error Host :=
  match written with
  | '[' :: rest =>
    if rest.getLast? = some ']' then (ipv6? rest.dropLast).map .ipv6 else .error .invalidIpv6
  | _ =>
    if written.any fun c => "\x00\t\n\r #/:<>?@[\\]^|".toList.contains c then
      .error .invalidDomainCharacter
    else .ok (.domain (Text.Percent.encode (fun _ => false) (.ofList written)))

end Host
end SiteCompiler.Url
