import SiteCompiler.HashSlot
import SiteCompiler.Json.Printer
import SiteCompiler.Linkage
import SiteCompiler.Script.Program

namespace SiteCompiler

inductive Diagnostic where
  | syntaxError
  | unlinked (cause : Linkage.Error)
  | tooManyDependencies (index : Nat)
  | noFreeLead
  | tooLong
deriving DecidableEq, Repr

def Diagnostic.message : Diagnostic → String
  | .syntaxError => "Unexpected token"
  | .unlinked cause => cause.message
  | .tooManyDependencies index =>
    "too many dependencies (" ++ .ofList (Nat.toDigits 10 index) ++ ")"
  | .noFreeLead => "no free hash slot marker for this source"
  | .tooLong => "capacity overflow"

structure CompileError where
  file : String
  diagnostics : List Diagnostic
deriving DecidableEq, Repr

def CompileError.message (e : CompileError) : String :=
  "failed to compile " ++ e.file ++ ":\n  "
    ++ "\n  ".intercalate (e.diagnostics.map Diagnostic.message)

/-- A compiled script, before anything is known of its dependencies. -/
structure Compiled where
  code : String
  sourceMap : Option String
  dependencies : List String
  slots : List HashSlot
deriving DecidableEq, Repr

namespace Compiled

open Linkage (Link)

/-- The letters by which leads differ, in the order in which they are tried. -/
def leadLetters : List Char :=
  "abcdefghijklmnopqrstuvwxyzABCDEFGHIJKLMNOPQRSTUVWXYZ".toList

def leadOf (letter : Char) : List Char :=
  ['_', letter, '$']

def freeLead? (texts : List (List Char)) : Option (List Char) :=
  (leadLetters.map leadOf).find? fun lead => texts.all (!Text.occursIn lead ·)

def indexDigits : Nat := 6

def maxIndex : Nat := Nat.pow 10 indexDigits - 1

def tokenOf (lead : List Char) (index : Nat) : List Char :=
  let digits := Nat.toDigits 10 index
  lead ++ List.replicate (indexDigits - digits.length) '0' ++ digits

inductive Piece where
  | text (content : List Char)
  | link (l : Link)
deriving DecidableEq, Repr

/-- A specifier, when `slot` tells what stands for the hash of a dependency. -/
def linkText (slot : Nat → List Char) : Link → List Char
  | .passthrough text => text.toList
  | .dependency index path isHashed =>
    path.toList ++ (if isHashed then '.' :: slot index else []) ++ ".js".toList

def written (slot : Nat → List Char) : List Piece → List Char
  | [] => []
  | .text content :: rest => content ++ written slot rest
  | .link l :: rest =>
    Script.Points.content ((linkText slot l).map Char.toNat) ++ written slot rest

def hasSlot : Piece → Bool
  | .link (.dependency _ _ isHashed) => isHashed
  | _ => false

/-- What takes the place of a specifier that leads out of the site, which is the specifier itself
unless it is told in other words. -/
def passed (value : Script.Points) (text : String) : Piece :=
  if text = value.toText then .text value.content else .link (.passthrough text)

/-- The specifiers linked in their order, given the dependencies so far; and the dependencies after
them, and what is wrong with the specifiers. -/
def linkAll (l : Linkage) :
    List String → Script.Template → List Piece × List String × List Diagnostic
  | dependencies, [] => ([], dependencies, [])
  | dependencies, .text content :: rest =>
    let (pieces, dependencies, wrong) := linkAll l dependencies rest
    (.text content :: pieces, dependencies, wrong)
  | dependencies, .specifier value :: rest =>
    match l.link dependencies value.toText with
    | .error cause =>
      let (pieces, dependencies, wrong) := linkAll l dependencies rest
      (pieces, dependencies, .unlinked cause :: wrong)
    | .ok (.passthrough text, dependencies) =>
      let (pieces, dependencies, wrong) := linkAll l dependencies rest
      (passed value text :: pieces, dependencies, wrong)
    | .ok (.dependency index path isHashed, dependencies) =>
      let (pieces, dependencies, wrong) := linkAll l dependencies rest
      if isHashed && maxIndex < index then
        (pieces, dependencies, .tooManyDependencies index :: wrong)
      else (.link (.dependency index path isHashed) :: pieces, dependencies, wrong)

def occurrences (lead : List Char) : List Char → Nat
  | [] => 0
  | c :: rest => (if lead.isPrefixOf (c :: rest) then 1 else 0) + occurrences lead rest

def tokenIndex? (lead code : List Char) : Option Nat :=
  if lead.isPrefixOf code then
    let digits := (code.drop lead.length).take indexDigits
    if digits.length = indexDigits ∧ digits.all Char.isDigit then
      some (digits.foldl (fun n c => n * 10 + (c.toNat - 48)) 0)
    else none
  else none

/-- Replaces the tokens by zeros and tells where they were; `octet` counts the octets before the
code, and `inToken` the characters of a token that are still to be replaced. -/
def blankFrom (lead : List Char) (octet inToken : Nat) : List Char → List Char × List HashSlot
  | [] => ([], [])
  | c :: rest =>
    match inToken, tokenIndex? lead (c :: rest) with
    | k + 1, _ =>
      let (code, slots) := blankFrom lead (octet + c.utf8Size) k rest
      ('0' :: code, slots)
    | 0, some index =>
      let (code, slots) :=
        blankFrom lead (octet + c.utf8Size) (Digest.prefixLength - 1) rest
      ('0' :: code, ⟨.ofNat index, .ofNat octet⟩ :: slots)
    | 0, none =>
      let (code, slots) := blankFrom lead (octet + c.utf8Size) 0 rest
      (c :: code, slots)

def mapText (file source : String) : String :=
  (Json.object [
    ("version", .ofNat 3),
    ("names", .array []),
    ("sources", .ofStrings [file]),
    ("sourcesContent", .ofStrings [source]),
    ("mappings", .string "")]).compact

/-- The code as it is written with a lead, if the lead then occurs in tokens only. -/
def writeWith? (pieces : List Piece) (lead : List Char) : Option (List Char) :=
  let code := written (tokenOf lead) pieces
  if occurrences lead code = pieces.countP hasSlot then some code else none

/-- The code and its slots. If the lead that the source allows turns up in the code, because the
code is written without the escapes of the source, one that does not is taken in its place. -/
def assemble? (source : List Char) (lead : List Char) (pieces : List Piece) :
    Option (List Char × List HashSlot) := do
  match writeWith? pieces lead with
  | some code => return blankFrom lead 0 0 code
  | none =>
    let lead ← freeLead? [source, written (tokenOf lead) pieces]
    let code ← writeWith? pieces lead
    return blankFrom lead 0 0 code

/-- Compiles the source of the module for which specifiers are linked. The octets of the code have to
be numbered by words. -/
def compile (l : Linkage) (dialect : Dialect) (source : String) (withMap : Bool) :
    Except CompileError Compiled :=
  let fail := fun diagnostics => Except.error (CompileError.mk l.importer diagnostics)
  match freeLead? [source.toList] with
  | none => fail [.noFreeLead]
  | some lead =>
    match Script.template? dialect source with
    | none => fail [.syntaxError]
    | some template =>
      match linkAll l [] template with
      | (pieces, dependencies, []) =>
        match assemble? source.toList lead pieces with
        | none => fail [.noFreeLead]
        | some (code, slots) =>
          let code := String.ofList code
          if code.utf8ByteSize < UInt64.size then
            .ok {
              code
              sourceMap := if withMap then some (mapText l.importer source) else none
              dependencies, slots }
          else fail [.tooLong]
      | (_, _, wrong) => fail wrong

end Compiled
end SiteCompiler
