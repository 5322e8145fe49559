import SiteCompiler.Dialect
import SiteCompiler.Url.Parser

namespace SiteCompiler.ModuleId

def vendorDirectory : String := "/-"

def isRemote (specifier : String) : Bool :=
  Text.startsWith specifier "https://" || Text.startsWith specifier "http://"

def isLoopback (specifier : String) : Bool :=
  match Url.parse specifier with
  | .ok url => (url.host?.map Url.Host.isLoopback).getD false
  | .error _ => false

def isRelative (specifier : String) : Bool :=
  specifier = "." || specifier = ".." || Text.startsWith specifier "./"
    || Text.startsWith specifier "../"

def normalizeRemote (specifier : String) : Except Url.Error String :=
  (Url.parse specifier).map Url.text

def joinRemote (base specifier : String) : Except Url.Error String := do
  let base ← Url.parse base
  (base.join specifier).map Url.text

/-- Follows segments from a directory, whose innermost segment comes first; going up from the top
stays there. -/
def climb (directory : List String) : List String → List String
  | [] => directory
  | segment :: rest =>
    if segment = "" ∨ segment = "." then climb directory rest
    else if segment = ".." then climb directory.tail rest
    else climb (segment :: directory) rest

def cleanSegments (path : String) : List String :=
  (climb [] (Text.pieces '/' path)).reverse

def rooted (segments : List String) : String :=
  "/" ++ "/".intercalate segments

/-- The normal form of a local path: from the top, without empty, `.` and `..` segments. -/
def normalizeLocal (path : String) : String :=
  rooted (cleanSegments path)

def parentDirectory (path : String) : String :=
  match Text.cutLast? (· = '/') path with
  | some (directory, _) => directory
  | none => ""

def resolveLocal (importer specifier : String) : String :=
  if Text.startsWith specifier "/" then normalizeLocal specifier
  else normalizeLocal (parentDirectory importer ++ "/" ++ specifier)

def stripExtension (path : String) : String :=
  match Dialect.ofPath? path, Text.cutLast? (· = '.') path with
  | some _, some (stem, _) => stem
  | _, _ => path

/-- Letters, digits, dots, underscores and hyphens stay; all else becomes an underscore. -/
def sanitize (s : String) : String :=
  .ofList (s.toList.map fun c =>
    if c.isAlphanum || c = '.' || c = '_' || c = '-' then c else '_')

/-- The stem of a URL: host and port, then the path with its query folded in. -/
def urlStem (url : Url) : String :=
  let host := sanitize ((url.host?.map Url.Host.text).getD "unknown")
  let port := match url.port? with
    | some n => "_" ++ .ofList (Nat.toDigits 10 n)
    | none => ""
  let path := if Text.endsWith url.path "/" then url.path ++ "index" else url.path
  let query := match url.query with
    | some q => if q = "" then "" else "@" ++ sanitize q
    | none => ""
  vendorDirectory ++ "/" ++ host ++ port ++ stripExtension path ++ query

def remoteStem (id : String) : String :=
  match Url.parse id with
  | .ok url => urlStem url
  | .error _ => vendorDirectory ++ "/" ++ sanitize id

def stem (id : String) : String :=
  if isRemote id then remoteStem id else stripExtension id

def commonLength [BEq α] : List α → List α → Nat
  | a :: as, b :: bs => if a == b then commonLength as bs + 1 else 0
  | _, _ => 0

/-- The specifier that leads from one path to another; the last segment of the target is always
spelled out. -/
def relativeSpecifier (source path : String) : String :=
  let directory := Text.segments (parentDirectory source)
  let target := Text.segments path
  let common := min (commonLength directory target) (target.length - 1)
  "./" ++ "/".intercalate
    (List.replicate (directory.length - common) ".." ++ target.drop common)

end SiteCompiler.ModuleId
