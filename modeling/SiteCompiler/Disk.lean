import SiteCompiler.Text.Cutting
import SiteCompiler.Text.Utf8

namespace SiteCompiler

inductive FileError where
  | notFound
  | exists
  | notDirectory
  | isDirectory
  | nameTooLong
  | invalidPath
  | notText
deriving DecidableEq, Repr

def FileError.message : FileError → String
  | .notFound => "No such file or directory (os error 2)"
  | .exists => "File exists (os error 17)"
  | .notDirectory => "Not a directory (os error 20)"
  | .isDirectory => "Is a directory (os error 21)"
  | .nameTooLong => "File name too long (os error 36)"
  | .invalidPath => "file name contained an unexpected NUL byte"
  | .notText => "stream did not contain valid UTF-8"

inductive Disk.Entry where
  | directory
  | file (content : ByteArray)

abbrev Disk.Place := List String

/-- The entries below the top, each at most once; the directories above an entry are entries too. -/
structure Disk where
  workingDirectory : Disk.Place
  entries : List (Disk.Place × Disk.Entry)

namespace Disk

def entry? (d : Disk) (place : Place) : Option Entry :=
  if place = [] then some .directory else d.entries.lookup place

def put (d : Disk) (place : Place) (entry : Entry) : Disk :=
  { d with entries := (place, entry) :: d.entries.filter (·.1 ≠ place) }

def maxName : Nat := 255

def maxPath : Nat := 4095

def step (d : Disk) (place : Place) (piece : String) : Except FileError Place :=
  match d.entry? place with
  | none => .error .notFound
  | some (.file _) => .error .notDirectory
  | some .directory =>
    if piece = "" ∨ piece = "." then .ok place
    else if piece = ".." then .ok place.dropLast
    else if maxName < piece.utf8ByteSize then .error .nameTooLong
    else .ok (place ++ [piece])

def start (d : Disk) (path : String) : Place × List String :=
  match Text.pieces '/' path with
  | "" :: rest => ([], rest)
  | pieces => (d.workingDirectory, pieces)

def checkPath (path : String) : Except FileError Unit :=
  if path.toList.contains '\x00' then .error .invalidPath
  else if maxPath < path.utf8ByteSize then .error .nameTooLong
  else .ok ()

def locate (d : Disk) (path : String) : Except FileError Place :=
  if path = "" then .error .notFound
  else do
    checkPath path
    let (place, pieces) := d.start path
    pieces.foldlM d.step place

def find? (d : Disk) (path : String) : Option Entry :=
  match d.locate path with
  | .ok place => d.entry? place
  | .error _ => none

def isFile (d : Disk) (path : String) : Bool :=
  match d.find? path with
  | some (.file _) => true
  | _ => false

def isDirectory (d : Disk) (path : String) : Bool :=
  match d.find? path with
  | some .directory => true
  | _ => false

def readBytes (d : Disk) (path : String) : Except FileError ByteArray := do
  match d.entry? (← d.locate path) with
  | none => throw .notFound
  | some .directory => throw .isDirectory
  | some (.file content) => return content

def readText (d : Disk) (path : String) : Except FileError String := do
  match Text.Utf8.decode? (← d.readBytes path) with
  | some text => return text
  | none => throw .notText

def writeBytes (d : Disk) (path : String) (content : ByteArray) : Except FileError Disk := do
  let place ← d.locate path
  match d.entry? place with
  | some .directory => throw .isDirectory
  | _ => return d.put place (.file content)

def writeText (d : Disk) (path : String) (text : String) : Except FileError Disk :=
  d.writeBytes path text.toUTF8

def makeAlong (d : Disk) (place : Place) : List String → Except FileError Disk
  | [] => .ok d
  | piece :: rest => do
    let next ← d.step place piece
    match d.entry? next with
    | some .directory => d.makeAlong next rest
    | some (.file _) => throw (if rest.isEmpty then .exists else .notDirectory)
    | none => (d.put next .directory).makeAlong next rest

def makeDirectories (d : Disk) (path : String) : Except FileError Disk :=
  if path = "" then .ok d
  else do
    checkPath path
    let (place, pieces) := d.start path
    d.makeAlong place pieces

def removeAt (d : Disk) (place : Place) : Disk :=
  { d with entries := d.entries.filter fun e => !place.isPrefixOf e.1 }

def removeDirectory (d : Disk) (path : String) : Except FileError Disk := do
  let place ← d.locate path
  match d.entry? place with
  | none => throw .notFound
  | some (.file _) => throw .notDirectory
  | some .directory => return d.removeAt place

def namesAt (d : Disk) (place : Place) : List (String × Entry) :=
  let named := d.entries.filterMap fun (place', e) =>
    match place.isPrefixOf? place' with
    | some [name] => some (name, e)
    | _ => none
  named.mergeSort fun a b => a.1 ≤ b.1

def readDirectory (d : Disk) (path : String) : Except FileError (List (String × Entry)) := do
  let place ← d.locate path
  match d.entry? place with
  | none => throw .notFound
  | some (.file _) => throw .notDirectory
  | some .directory => return d.namesAt place

/-- The files at any depth below a place, with the names that lead to them, in order. -/
def filesBelow (d : Disk) (place : Place) : List (List String × ByteArray) :=
  let files := d.entries.filterMap fun (place', e) =>
    match place.isPrefixOf? place', e with
    | some (name :: rest), .file content => some (name :: rest, content)
    | _, _ => none
  files.mergeSort fun a b => !List.lex b.1 a.1 fun x y => x < y

abbrev Action := ExceptT FileError (StateM Disk)

def change (f : Disk → Except FileError Disk) : Action Unit := do
  match f (← get) with
  | .ok d => set d
  | .error cause => throw cause

def perform (d : Disk) (action : Action α) : Except FileError α × Disk :=
  action.run.run d

end Disk
end SiteCompiler
