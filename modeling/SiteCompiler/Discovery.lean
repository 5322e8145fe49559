import SiteCompiler.Dialect
import SiteCompiler.Disk
import SiteCompiler.FilePath
import SiteCompiler.Json.Reader

namespace SiteCompiler.Discovery

def moduleDirectories : List String := ["pages", "components"]

def isPrivate (name : String) : Bool :=
  Text.startsWith name "." || Text.startsWith name "_"

def isModule (names : List String) : Bool :=
  names.all (fun name => !isPrivate name)
    && ((names.getLast?.bind Dialect.ofPath?).isSome)

def modulesIn (disk : Disk) (source directory : String) : List String :=
  let path := FilePath.join source directory
  match disk.locate path with
  | .error _ => []
  | .ok place =>
    if disk.isDirectory path then
      ((disk.filesBelow place).filter fun (names, _) => isModule names).map fun (names, _) =>
        "/" ++ directory ++ "/" ++ "/".intercalate names
    else []

def modules (disk : Disk) (source : String) : List String :=
  (moduleDirectories.flatMap (modulesIn disk source)).mergeSort fun a b => a ≤ b

def appModule? (disk : Disk) (source : String) : Option String :=
  (Dialect.all.map fun d => "app." ++ d.extension).findSome? fun name =>
    if disk.isFile (FilePath.join source name) then some ("/" ++ name) else none

def isAppModule (id : String) : Bool :=
  match Text.dropStart? "/app." id with
  | some extension => (Dialect.ofExtension? extension).isSome
  | none => false

def dictionaries (disk : Disk) (source : String) : List (String × Json) :=
  let directory := FilePath.join source "i18n"
  match disk.readDirectory directory with
  | .error _ => []
  | .ok names =>
    Json.sortMembers (names.filterMap fun (name, _) => do
      let locale ← Text.dropEnd? ".json" name
      let text ← (disk.readText (FilePath.join directory name)).toOption
      return (locale, ← Json.parse? text))

end SiteCompiler.Discovery
