import SiteCompiler.Environment
import SiteCompiler.Json.Reader
import SiteCompiler.Disk
import SiteCompiler.FilePath

namespace SiteCompiler

inductive ConfigError where
  | file (cause : FileError)
  | json (origin : String)
  | variable (field : String) (cause : Environment.Unresolved)
deriving DecidableEq, Repr

def ConfigError.message : ConfigError → String
  | .file cause => "I/O error: " ++ cause.message
  | .json origin => "JSON parse error in " ++ origin
  | .variable field cause => "Environment variable error in " ++ field ++ ": " ++ cause.message

def ConfigError.messages (e : ConfigError) : List String :=
  e.message :: match e with
    | .file cause => [cause.message]
    | _ => []

structure ImportMap where
  entries : List (String × String)
deriving DecidableEq, Repr

namespace ImportMap

def fileName : String := "import_map.json"

def variableName : String := "POST_IMPORT_MAP"

def empty : ImportMap := ⟨[]⟩

def isEmpty (m : ImportMap) : Bool :=
  m.entries.isEmpty

def builtin : ImportMap := ⟨[
  ("react", "https://esm.sh/react@17.0.1"),
  ("react-dom", "https://esm.sh/react-dom@17.0.1"),
  ("react-dom/server", "https://esm.sh/react-dom@17.0.1/server")]⟩

def find? (m : ImportMap) (key : String) : Option String :=
  m.entries.lookup key

def insert (m : ImportMap) (key target : String) : ImportMap :=
  ⟨Json.insertMember key target m.entries⟩

def ofList (entries : List (String × String)) : ImportMap :=
  ⟨Json.sortMembers entries⟩

def merge (m upper : ImportMap) : ImportMap :=
  upper.entries.foldl (fun m (key, target) => m.insert key target) m

def covers (key specifier : String) : Bool :=
  Text.endsWith key "/" && Text.startsWith specifier key

/-- Of the entries whose key covers the specifier the one with the longest key. -/
def longest? (specifier : String) : List (String × String) → Option (String × String)
  | [] => none
  | e :: rest =>
    match longest? specifier rest with
    | none => if covers e.1 specifier then some e else none
    | some f =>
      if covers e.1 specifier && f.1.utf8ByteSize < e.1.utf8ByteSize then some e else some f

def resolve? (m : ImportMap) (specifier : String) : Option String :=
  match m.find? specifier with
  | some target => some target
  | none => do
    let (key, target) ← longest? specifier m.entries
    let rest ← Text.dropStart? key specifier
    return target ++ rest

/-- Expands the targets in key order; `origin` names the document in messages. -/
def expandTargets (env : Environment) (origin : String) :
    List (String × String) → Except ConfigError (List (String × String))
  | [] => .ok []
  | (key, target) :: rest => do
    let target ← (env.expand target).mapError (.variable (origin ++ ": imports." ++ key))
    let rest ← expandTargets env origin rest
    return (key, target) :: rest

def read? (text : String) : Option (List (String × String)) := do
  match ← (← Json.Document.read? text).fields? ["imports"] with
  | [imports] => Json.Document.withDefault? [] Json.Document.stringMap? imports
  | _ => none

def ofDocument (env : Environment) (text origin : String) : Except ConfigError ImportMap :=
  match read? text with
  | none => .error (.json origin)
  | some entries => (expandTargets env origin entries).map ImportMap.mk

def isBlank (text : String) : Bool :=
  text.toList.all Text.isBlank

/-- The three layers of the project at `root`, the middle one given as a document. -/
def loadWith (disk : Disk) (env : Environment) (root : String) (document : Option String) :
    Except ConfigError ImportMap := do
  let middle ← match document with
    | some text => if isBlank text then pure empty else ofDocument env text variableName
    | none => pure empty
  let map := builtin.merge middle
  let path := FilePath.join root fileName
  if disk.isFile path then
    let text ← (disk.readText path).mapError .file
    return map.merge (← ofDocument env text path)
  else return map

def load (disk : Disk) (env : Environment) (root : String) : Except ConfigError ImportMap :=
  loadWith disk env root (env.text? variableName).toOption

end ImportMap
end SiteCompiler
