import SiteCompiler.HashSlot
import SiteCompiler.Json.Printer
import SiteCompiler.Json.Reader
import SiteCompiler.ModuleId

namespace SiteCompiler

/-- A module that is imported, and the hash under which; the hash is empty until it is known. -/
structure Dependency where
  path : String
  hash : String
deriving DecidableEq, Repr

structure Module where
  id : String
  dialect : Dialect
  sourceHash : String
  isRemote : Bool
  hash : String
  code : String
  sourceMap : Option String
  /-- Where the code is stored. -/
  file : String
  dependencies : List Dependency
  slots : List HashSlot
deriving DecidableEq, Repr

structure ModuleMeta where
  sourceFile : String
  dialect : Dialect
  sourceHash : String
  hash : String
  dependencies : List Dependency
  slots : List HashSlot
  isRemote : Bool
deriving DecidableEq, Repr

namespace Module

def stem (m : Module) : String :=
  ModuleId.stem m.id

/-- The name of compiled code; that of a local module holds the short form of its hash. -/
def nameOf (stem : String) (hash : Option String) : String :=
  match hash with
  | some hash => stem ++ "." ++ Digest.hashPrefix hash ++ ".js"
  | none => stem ++ ".js"

def nameHash (m : Module) : Option String :=
  if m.isRemote then none else some m.hash

def outputName (m : Module) : String :=
  nameOf m.stem m.nameHash

def record (m : Module) : ModuleMeta :=
  ⟨m.id, m.dialect, m.sourceHash, m.hash, m.dependencies, m.slots, m.isRemote⟩

end Module

namespace ModuleMeta

open Json (Document)

def dependencyJson (d : Dependency) : Json :=
  .object [("path", .string d.path), ("hash", .string d.hash)]

def slotJson (s : HashSlot) : Json :=
  .object [("dep", .ofNat s.dependency.toNat), ("offset", .ofNat s.offset.toNat)]

def toJson (m : ModuleMeta) : Json :=
  .object [
    ("sourceFile", .string m.sourceFile),
    ("sourceType", .string m.dialect.extension),
    ("sourceHash", .string m.sourceHash),
    ("hash", .string m.hash),
    ("deps", .array (m.dependencies.map dependencyJson)),
    ("slots", .array (m.slots.map slotJson)),
    ("isRemote", .bool m.isRemote)]

def text (m : ModuleMeta) : String :=
  m.toJson.pretty

/-- A dialect is written as its name, or as an object with the name as its only key. -/
def readDialect? : Document → Option Dialect
  | .string pieces => (Json.Piece.text? pieces).bind Dialect.ofName?
  | .object [(key, .null)] => (Json.Piece.text? key).bind Dialect.ofName?
  | _ => none

def readDependency? (d : Document) : Option Dependency := do
  match ← d.fields? ["path", "hash"] with
  | [path, hash] =>
    return ⟨← Document.required? Document.string? path, ← Document.required? Document.string? hash⟩
  | _ => none

def readSlot? (d : Document) : Option HashSlot := do
  match ← d.fields? ["dep", "offset"] with
  | [dependency, offset] =>
    return ⟨← Document.required? Document.word? dependency,
      ← Document.required? Document.word? offset⟩
  | _ => none

def fieldNames : List String :=
  ["sourceFile", "sourceType", "sourceHash", "hash", "deps", "slots", "isRemote"]

def ofDocument? (d : Document) : Option ModuleMeta := do
  match ← d.fields? fieldNames with
  | [sourceFile, dialect, sourceHash, hash, dependencies, slots, isRemote] =>
    return {
      sourceFile := ← Document.required? Document.string? sourceFile
      dialect := ← Document.withDefault? .js readDialect? dialect
      sourceHash := ← Document.required? Document.string? sourceHash
      hash := ← Document.required? Document.string? hash
      dependencies := ← Document.withDefault? [] (Document.list? readDependency?) dependencies
      slots := ← Document.withDefault? [] (Document.list? readSlot?) slots
      isRemote := ← Document.withDefault? false Document.bool? isRemote }
  | _ => none

def read? (text : String) : Option ModuleMeta :=
  (Document.read? text).bind ofDocument?

end ModuleMeta
end SiteCompiler
