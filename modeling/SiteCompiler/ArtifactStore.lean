import SiteCompiler.Disk
import SiteCompiler.FilePath
import SiteCompiler.Module

namespace SiteCompiler

structure ArtifactStore where
  root : String
deriving DecidableEq, Repr

namespace ArtifactStore

def path (s : ArtifactStore) (name : String) : String :=
  FilePath.join s.root (Text.trimStart (· = '/') name)

def recordPath (s : ArtifactStore) (stem : String) : String :=
  s.path (stem ++ ".meta.json")

def codePath (s : ArtifactStore) (stem : String) (hash : Option String) : String :=
  s.path (Module.nameOf stem hash)

def sourceMapPath (codePath : String) : String :=
  codePath ++ ".map"

def versionPath (root : String) : String :=
  FilePath.join root "VERSION"

def clear (root : String) : Disk.Action Unit :=
  Disk.change fun disk =>
    match disk.removeDirectory root with
    | .error .notFound => .ok disk
    | result => result

def reset (root version : String) : Disk.Action Unit := do
  clear root
  Disk.change fun disk => disk.makeDirectories root
  Disk.change fun disk => disk.writeText (versionPath root) version

/-- Opens the store at `root`; a directory that is not marked with the version is emptied, as far as
that can be done. -/
def openAt (disk : Disk) (root version : String) : ArtifactStore × Disk :=
  if (disk.readText (versionPath root)).toOption = some version then (⟨root⟩, disk)
  else (⟨root⟩, (disk.perform (reset root version)).2)

def readText? (disk : Disk) (path : String) : Option String :=
  (disk.readText path).toOption

/-- The text of a record. Octets that spell no character appear as an escape that spells none, so
that they damage only what they stand in. -/
def recordText (octets : ByteArray) : String :=
  (Text.Utf8.decode? octets).getD (.ofList (Text.Utf8.decodeWith "\\udc00".toList octets.toList))

def readRecord? (s : ArtifactStore) (disk : Disk) (stem : String) : Option ModuleMeta :=
  (disk.readBytes (s.recordPath stem)).toOption.bind fun octets =>
    ModuleMeta.read? (recordText octets)

def writeFile (path text : String) : Disk.Action Unit := do
  match FilePath.parent? path with
  | some parent => Disk.change fun disk => disk.makeDirectories parent
  | none => pure ()
  Disk.change fun disk => disk.writeText path text

def writeCode (path code : String) (sourceMap : Option String) : Disk.Action Unit := do
  writeFile path code
  match sourceMap with
  | some map => Disk.change fun disk => disk.writeText (sourceMapPath path) map
  | none => pure ()

def write (s : ArtifactStore) (stem record path code : String) (sourceMap : Option String) :
    Disk.Action Unit := do
  writeFile (s.recordPath stem) record
  writeCode path code sourceMap

end ArtifactStore
end SiteCompiler
