import SiteCompiler.Digest
import SiteCompiler.Disk
import SiteCompiler.FilePath
import SiteCompiler.ModuleId
import SiteCompiler.Network

namespace SiteCompiler

structure Source where
  text : String
  dialect : Dialect
  hash : String
deriving DecidableEq, Repr

inductive FetchError where
  | status (url : String) (status : Nat)
  | transport (url : String) (cause : Network.Failure)
  | notText (url : String)
deriving DecidableEq, Repr

namespace FetchError

def url : FetchError → String
  | status url _ => url
  | transport url _ => url
  | notText url => url

def status? : FetchError → Option Nat
  | status _ n => some n
  | _ => none

def message : FetchError → String
  | status url n => "failed to fetch " ++ url ++ ": HTTP " ++ .ofList (Nat.toDigits 10 n)
  | transport url _ => "failed to fetch " ++ url
  | notText url => "failed to fetch " ++ url ++ ": response body is not valid UTF-8"

def messages (e : FetchError) : List String :=
  e.message :: match e with
    | transport _ cause => [cause.message]
    | _ => []

end FetchError

inductive SourceError where
  | fetch (cause : FetchError)
  | tooLarge (path : String) (size limit : Nat)
  | notFound (id : String)
  | file (path : String) (cause : FileError)
deriving DecidableEq, Repr

namespace SourceError

def message : SourceError → String
  | fetch cause => cause.message
  | tooLarge path size limit =>
    path ++ " is " ++ .ofList (Nat.toDigits 10 size) ++ " bytes, over the "
      ++ .ofList (Nat.toDigits 10 limit) ++ " byte module size limit"
  | notFound id => "module not found: " ++ id
  | file path _ => "failed to read " ++ path

def messages : SourceError → List String
  | fetch cause => cause.messages
  | file path cause => [message (file path cause), cause.message]
  | e => [e.message]

end SourceError

namespace Source

def ofText (text : String) (dialect : Dialect) : Source :=
  ⟨text, dialect, Digest.contentHash text⟩

structure Folder where
  directory : String
  maxSize : Nat
deriving DecidableEq, Repr

namespace Folder

/-- The files that an id without extension may name, in order of preference. -/
def candidates (base : String) : List String :=
  Dialect.all.map (fun d => base ++ "." ++ d.extension)
    ++ Dialect.all.map (fun d => FilePath.join base ("index." ++ d.extension))

def basePath (f : Folder) (id : String) : String :=
  FilePath.join f.directory (Text.trimStart (· = '/') id)

def path? (f : Folder) (disk : Disk) (id : String) : Option String :=
  if (Dialect.ofPath? id).isSome then
    if disk.isFile (f.basePath id) then some (f.basePath id) else none
  else (candidates (f.basePath id)).find? disk.isFile

def componentText : FilePath.Component → String
  | .root => "/"
  | .current => "."
  | .parent => ".."
  | .named name => name

def canonicalId? (f : Folder) (disk : Disk) (id : String) : Option String := do
  let path ← f.path? disk id
  let below ← FilePath.below? f.directory path
  return "/" ++ "/".intercalate (below.map componentText)

def read (f : Folder) (disk : Disk) (id : String) : Except SourceError Source :=
  match f.path? disk id with
  | none => .error (.notFound id)
  | some path =>
    match disk.readBytes path with
    | .error cause => .error (.file path cause)
    | .ok content =>
      if f.maxSize < content.size then .error (.tooLarge path content.size f.maxSize)
      else match Text.Utf8.decode? content with
        | none => .error (.file path .notText)
        | some text => .ok (ofText text ((Dialect.ofPath? path).getD .js))

end Folder

def ofAnswer (url : String) : Except Network.Failure Network.Response → Except FetchError Source
  | .error cause => .error (.transport url cause)
  | .ok response =>
    if !response.isSuccess then .error (.status url response.status)
    else match Text.Utf8.decode? response.body with
      | none => .error (.notText url)
      | some text => .ok (ofText text (Dialect.sniff url response.contentType))

def fetch (network : Network) (url : String) : Except SourceError Source × Network :=
  let (answer, network) := network.get url
  ((ofAnswer url answer).mapError .fetch, network)

def load (f : Folder) (disk : Disk) (network : Network) (id : String) :
    Except SourceError Source × Network :=
  if ModuleId.isRemote id then fetch network id else (f.read disk id, network)

end Source
end SiteCompiler
