import SiteCompiler.ImportMap
import SiteCompiler.ModuleId

namespace SiteCompiler

/-- What specifiers mean in a module. `locate?` tells which file a local path without extension
names. -/
structure Linkage where
  importer : String
  importMap : ImportMap
  /-- Whether remote modules are compiled even if their URL does not tell a dialect. -/
  cacheDependencies : Bool
  locate? : String → Option String

namespace Linkage

inductive Error where
  | bare (specifier : String)
  | invalidUrl (specifier : String) (cause : Url.Error)
deriving DecidableEq, Repr

def Error.message : Error → String
  | .bare specifier =>
    "cannot resolve bare specifier \"" ++ specifier ++ "\" (add it to the import map)"
  | .invalidUrl specifier cause => "invalid URL \"" ++ specifier ++ "\": " ++ cause.message

/-- Where a specifier leads: to a module, or past the compiler with its final text. -/
inductive Target where
  | outside (text : String)
  | localModule (id : String)
  | remoteModule (id : String)
deriving DecidableEq, Repr

inductive Link where
  | passthrough (text : String)
  | dependency (index : Nat) (path : String) (hashed : Bool)
deriving DecidableEq, Repr

/-- A file that is not a module: it has an extension after a name, and no dialect's. -/
def isAsset (id : String) : Bool :=
  match Text.cutLast? (· = '.') (Text.afterLast '/' id) with
  | some (name, _) => name ≠ "" && (Dialect.ofPath? id).isNone
  | none => false

def remoteTarget (l : Linkage) (url : String) : Target :=
  if !l.cacheDependencies && (Dialect.ofPath? url).isNone then .outside url else .remoteModule url

def localTarget (l : Linkage) (specifier id : String) : Target :=
  if isAsset id then .outside specifier
  else if (Dialect.ofPath? id).isNone then .localModule ((l.locate? id).getD id)
  else .localModule id

def target (l : Linkage) (specifier : String) : Except Error Target :=
  let mapped := l.importMap.resolve? specifier
  let text := mapped.getD specifier
  let isPath := Text.startsWith text "/" || ModuleId.isRelative text
  if ModuleId.isRemote text then
    match ModuleId.normalizeRemote text with
    | .ok url => .ok (l.remoteTarget url)
    | .error cause => .error (.invalidUrl text cause)
  else if ModuleId.isRemote l.importer then
    if isPath then
      match ModuleId.joinRemote l.importer text with
      | .ok url => .ok (l.remoteTarget url)
      | .error cause => .error (.invalidUrl text cause)
    else .error (.bare specifier)
  else if mapped.isSome && (Text.startsWith text "/" || Text.startsWith text "./") then
    .ok (l.localTarget specifier (ModuleId.normalizeLocal text))
  else if isPath then .ok (l.localTarget specifier (ModuleId.resolveLocal l.importer text))
  else .error (.bare specifier)

def record (dependencies : List String) (id : String) : Nat × List String :=
  match dependencies.findIdx? (· = id) with
  | some index => (index, dependencies)
  | none => (dependencies.length, dependencies ++ [id])

/-- The path from the importer's compiled form to another module's, without extension. -/
def pathTo (l : Linkage) (id : String) : String :=
  ModuleId.relativeSpecifier (ModuleId.stem l.importer) (ModuleId.stem id)

def link (l : Linkage) (dependencies : List String) (specifier : String) :
    Except Error (Link × List String) := do
  match ← l.target specifier with
  | .outside text => return (.passthrough text, dependencies)
  | .remoteModule id =>
    let (index, dependencies) := record dependencies id
    return (.dependency index (l.pathTo id) false, dependencies)
  | .localModule id =>
    let (index, dependencies) := record dependencies id
    return (.dependency index (l.pathTo id) (!ModuleId.isRemote l.importer), dependencies)

end Linkage
end SiteCompiler
