import SiteCompiler.Text.Cutting

namespace SiteCompiler.CommandLine

structure Switch where
  name : String
  letter? : Option Char
  hasValue : Bool
deriving DecidableEq, Repr

/-- The options that were given, by name, with the values of those that have one. -/
abbrev Given := List (String × Option String)

/-- Enters an option; it must not have been given before, and its value must not be empty. -/
def Given.add? (given : Given) (s : Switch) (value? : Option String) : Option Given :=
  if given.any (·.1 = s.name) || value? = some "" then none
  else some ((s.name, value?) :: given)

def Given.value? (given : Given) (name : String) : Option String :=
  (given.lookup name).join

def Given.contains (given : Given) (name : String) : Bool :=
  (given.lookup name).isSome

/-- The options that were given so far, and the one whose value is the next word. -/
structure Pending where
  given : Given
  awaiting? : Option Switch

def readLetters? (switches : List Switch) (given : Given) : List Char → Option Pending
  | [] => some ⟨given, none⟩
  | c :: rest => do
    let s ← switches.find? (·.letter? = some c)
    if !s.hasValue then readLetters? switches (← given.add? s none) rest
    else
      match rest with
      | [] => return ⟨given, some s⟩
      | '=' :: value => return ⟨← given.add? s (some (.ofList value)), none⟩
      | value => return ⟨← given.add? s (some (.ofList value)), none⟩

def readName? (switches : List Switch) (given : Given) (text : String) : Option Pending :=
  match Text.cutFirst? (· = '=') text with
  | none => do
    let s ← switches.find? (·.name = text)
    if s.hasValue then return ⟨given, some s⟩ else return ⟨← given.add? s none, none⟩
  | some (name, value) => do
    let s ← switches.find? (·.name = name)
    if s.hasValue then return ⟨← given.add? s (some value), none⟩ else none

def readOption? (switches : List Switch) (given : Given) (word : String) : Option Pending :=
  match word.toList with
  | '-' :: '-' :: name => readName? switches given (.ofList name)
  | '-' :: c :: letters => readLetters? switches given (c :: letters)
  | _ => none

def isValue (word : String) : Bool :=
  word = "-" || !Text.startsWith word "-"

def readWords? (switches : List Switch) : Pending → List String → Option Given
  | ⟨given, none⟩, [] => some given
  | ⟨given, none⟩, ["--"] => some given
  | ⟨_, some _⟩, [] => none
  | ⟨given, none⟩, word :: rest => do
    readWords? switches (← readOption? switches given word) rest
  | ⟨given, some s⟩, word :: rest =>
    if isValue word then do readWords? switches ⟨← given.add? s (some word), none⟩ rest
    else none

/-- The options that the words after a command give, unless they are malformed. -/
def options? (switches : List Switch) (words : List String) : Option Given :=
  readWords? switches ⟨[], none⟩ words

end SiteCompiler.CommandLine
