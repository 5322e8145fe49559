import SiteCompiler.Text.Cutting
import SiteCompiler.Text.Letter
import SiteCompiler.Text.Utf8

namespace SiteCompiler

abbrev Environment := List (String × ByteArray)

namespace Environment

inductive Absence where
  | unset
  | notText
deriving DecidableEq, Repr

structure Unresolved where
  name : String
  cause : Absence
deriving DecidableEq, Repr

def Unresolved.message (u : Unresolved) : String :=
  "$\x7b" ++ u.name ++ "\x7d " ++ match u.cause with
    | .unset => "not set"
    | .notText => "is not valid UTF-8"

def text? (env : Environment) (name : String) : Except Absence String :=
  match env.lookup name with
  | none => .error .unset
  | some value =>
    match Text.Utf8.decode? value with
    | some text => .ok text
    | none => .error .notText

def isNameChar (c : Char) : Bool :=
  Text.Letter.isAlphanumeric c || c = '_'

def cutMark : List Char → List Char × Option (List Char)
  | [] => ([], none)
  | ':' :: '-' :: rest => ([], some rest)
  | c :: rest =>
    let (name, default) := cutMark rest
    (c :: name, default)

/-- The name and the default inside braces; a default needs a name before it. -/
def cutDefault (inside : List Char) : List Char × Option (List Char) :=
  match cutMark inside with
  | ([], some _) => (inside, none)
  | cut => cut

def value (env : Environment) (name : List Char) (default : Option (List Char)) :
    Except Unresolved (List Char) :=
  match env.text? (.ofList name), default with
  | .ok text, _ => .ok text.toList
  | .error _, some text => .ok text
  | .error cause, none => .error ⟨.ofList name, cause⟩

def cutBrace? : List Char → Option (List Char × List Char)
  | [] => none
  | c :: rest =>
    if c = '\x7d' then some ([], rest)
    else (cutBrace? rest).map fun (inside, after) => (c :: inside, after)

theorem cutBrace?_length_lt {cs : List Char} {r : List Char × List Char}
    (h : cutBrace? cs = some r) : r.2.length < cs.length := by
  induction cs generalizing r with
  | nil => simp [cutBrace?] at h
  | cons c rest ih =>
    simp only [cutBrace?] at h
    split at h
    · cases h; simp
    · obtain ⟨q, hq, rfl⟩ := Option.map_eq_some_iff.1 h
      exact Nat.lt_succ_of_lt (ih (r := q) hq)

/-- Expands the references of a text from the left; what a reference stands for is not read
again. -/
def expandAll (env : Environment) (cs : List Char) : Except Unresolved (List Char) :=
  match cs with
  | [] => .ok []
  | '$' :: '\x7b' :: rest =>
    match _h : cutBrace? rest with
    | none => do
      let after ← expandAll env rest
      return '$' :: '\x7b' :: after
    | some (inside, after) => do
      let (name, default) := cutDefault inside
      let text ← env.value name default
      let after ← expandAll env after
      return text ++ after
  | '$' :: '$' :: rest => do
    let after ← expandAll env rest
    return '$' :: after
  | '$' :: c :: rest =>
    if isNameChar c then do
      let text ← env.value (c :: rest.takeWhile isNameChar) none
      let after ← expandAll env (rest.dropWhile isNameChar)
      return text ++ after
    else do
      let after ← expandAll env (c :: rest)
      return '$' :: after
  | c :: rest => do
    let after ← expandAll env rest
    return c :: after
termination_by cs.length
decreasing_by
  · simp only [List.length_cons]
    omega
  · have : after.length < rest.length := cutBrace?_length_lt _h
    simp only [List.length_cons]
    omega
  · simp only [List.length_cons]
    omega
  · have := (List.dropWhile_sublist isNameChar (l := rest)).length_le
    simp only [List.length_cons]
    omega
  · simp only [List.length_cons]
    omega
  · simp only [List.length_cons]
    omega

/-- Expands the references of a text that holds a reference in braces; any other text is taken
literally. -/
def expand (env : Environment) (text : String) : Except Unresolved String :=
  if Text.contains text "$\x7b" then (env.expandAll text.toList).map String.ofList
  else .ok text

end Environment
end SiteCompiler
