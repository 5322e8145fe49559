import SiteCompiler.ArtifactStore
import SiteCompiler.Compilation
import SiteCompiler.Source

namespace SiteCompiler

structure ModuleTable where
  modules : List Module
deriving DecidableEq, Repr

namespace ModuleTable

def empty : ModuleTable := ⟨[]⟩

def find? (t : ModuleTable) (id : String) : Option Module :=
  t.modules.find? (·.id = id)

def contains (t : ModuleTable) (id : String) : Bool :=
  (t.find? id).isSome

def insertSorted (m : Module) : List Module → List Module
  | [] => [m]
  | other :: rest =>
    if m.id = other.id then m :: rest
    else if m.id < other.id then m :: other :: rest
    else other :: insertSorted m rest

def insert (t : ModuleTable) (m : Module) : ModuleTable :=
  ⟨insertSorted m t.modules⟩

def erase (t : ModuleTable) (id : String) : ModuleTable :=
  ⟨t.modules.filter (·.id ≠ id)⟩

end ModuleTable

namespace Graph

structure Settings where
  importMap : ImportMap
  /-- Whether remote modules are compiled even if their URL does not tell a dialect. -/
  cacheDependencies : Bool
  sourceMap : Bool

structure Stats where
  compiled : Nat
  /-- The modules and aliases written to the store. -/
  persisted : Nat
  fetched : Nat
  /-- The modules whose source had not changed. -/
  reused : Nat
deriving DecidableEq, Repr

def Stats.zero : Stats := ⟨0, 0, 0, 0⟩

inductive Error where
  | source (cause : SourceError)
  | compile (cause : CompileError)
deriving DecidableEq, Repr

namespace Error

def notFound (id : String) : Error :=
  .source (.notFound id)

def message : Error → String
  | .source cause => cause.message
  | .compile cause => cause.message

def messages : Error → List String
  | .source cause => cause.messages
  | .compile cause => [cause.message]

def isFetch : Error → Bool
  | .source (.fetch _) => true
  | _ => false

def isTooLarge : Error → Bool
  | .source (.tooLarge ..) => true
  | _ => false

end Error

/-- What ends a run early: an error, or a recorded hash whose first nine octets end inside a
character, so that no slot can take it. -/
inductive Stop where
  | error (cause : Error)
  | brokenHash (id : String)
deriving DecidableEq, Repr

namespace Stop

def messages : Stop → List String
  | .error cause => cause.messages
  | .brokenHash id => ["a dependency of " ++ id ++ " has a broken hash"]

def isTooLarge : Stop → Bool
  | .error cause => cause.isTooLarge
  | .brokenHash _ => false

def isCompile : Stop → Bool
  | .error (.compile _) => true
  | _ => false

end Stop

def normalizeId (text : String) : Except Error String :=
  if ModuleId.isRemote text then
    (ModuleId.normalizeRemote text).mapError fun _ => Error.notFound text
  else .ok (ModuleId.normalizeLocal text)

end Graph

/-- A graph, with the folder of its sources and the store of what it compiles. -/
structure Graph where
  folder : Source.Folder
  store : ArtifactStore
  settings : Graph.Settings
  /-- The local modules. -/
  modules : ModuleTable
  remote : ModuleTable
  stats : Graph.Stats

namespace Graph

def storeVersion : String := "post-0.1.0-1"

def new (folder : Source.Folder) (store : ArtifactStore) (settings : Settings) : Graph :=
  ⟨folder, store, settings, .empty, .empty, .zero⟩

def module? (g : Graph) (id : String) : Option Module :=
  g.modules.find? id

def remoteModule? (g : Graph) (id : String) : Option Module :=
  g.remote.find? id

def byStem? (g : Graph) (stem : String) : Option Module :=
  (g.modules.modules ++ g.remote.modules).find? (·.stem = stem)

/-- Whether a local module imports another one under a name with the given short hash. -/
def isImportedAs (g : Graph) (id hashPrefix : String) : Bool :=
  g.modules.modules.any fun importer =>
    importer.dependencies.any fun d =>
      d.path = id && d.hash ≠ "" && Digest.hashPrefix d.hash = hashPrefix

/-- The local module whose compiled form has the given stem, and that has the given short hash or is
imported under it. -/
def byOutput? (g : Graph) (stem hashPrefix : String) : Option Module := do
  let m ← g.modules.modules.find? (·.stem = stem)
  if Digest.hashPrefix m.hash = hashPrefix || g.isImportedAs m.id hashPrefix then some m else none

def dependents (g : Graph) (id : String) : List String :=
  (g.modules.modules.filter fun m => m.dependencies.any (·.path = id)).map (·.id)

def remove (g : Graph) (id : String) : Option Module × Graph :=
  (g.modules.find? id, { g with modules := g.modules.erase id })

/-- A name by which a local module is imported although it has another hash by now. -/
structure Alias where
  hashPrefix : String
  target : Module
deriving DecidableEq, Repr

namespace Alias

def outputName (a : Alias) : String :=
  Module.nameOf a.target.stem (some a.hashPrefix)

/-- Adds an alias to those in the order of their names, unless its name is there. -/
def insertNew (a : Alias) : List Alias → List Alias
  | [] => [a]
  | other :: rest =>
    if a.outputName = other.outputName then other :: rest
    else if a.outputName < other.outputName then a :: other :: rest
    else other :: insertNew a rest

end Alias

def aliasOf? (g : Graph) (d : Dependency) : Option Alias := do
  let target ← g.modules.find? d.path
  if d.hash = "" || Digest.hashPrefix d.hash = Digest.hashPrefix target.hash then none
  else some ⟨Digest.hashPrefix d.hash, target⟩

def aliases (g : Graph) : List Alias :=
  (g.modules.modules.flatMap (·.dependencies)).foldl (fun found d =>
    match g.aliasOf? d with
    | some a => a.insertNew found
    | none => found) []

end Graph
end SiteCompiler
