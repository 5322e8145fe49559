import SiteCompiler.Text.Cutting
import SiteCompiler.Text.Percent

namespace SiteCompiler.Url

def isFragmentEscape (c : Char) : Bool :=
  c = ' ' || c = '"' || c = '<' || c = '>' || c.toNat = 0x60

def isPathEscape (c : Char) : Bool :=
  isFragmentEscape c || c = '#' || c = '?' || c = '\x7b' || c = '\x7d'

inductive PathKind where
  | other
  | web
  | file
deriving DecidableEq, Repr

def isSlash (special : Bool) (c : Char) : Bool :=
  c = '/' || (special && c = '\\')

def cutBefore (p : Char → Bool) (cs : List Char) : List Char × List Char :=
  (cs.takeWhile fun c => !p c, cs.dropWhile fun c => !p c)

namespace Path

def isDot (segment : List Char) : Bool :=
  [".", "%2e"].contains (Text.lowerAscii (.ofList segment))

def isDotDot (segment : List Char) : Bool :=
  ["..", ".%2e", "%2e.", "%2e%2e"].contains (Text.lowerAscii (.ofList segment))

def isDriveLetter : List Char → Bool
  | [letter, mark] => letter.isAlpha && (mark = ':' || mark = '|')
  | _ => false

def isNormalDrive (segment : List Char) : Bool :=
  isDriveLetter segment && segment.getLast? = some ':'

def startsWithDrive : List Char → Bool
  | letter :: mark :: rest =>
    isDriveLetter [letter, mark] && !rest.head?.any fun c => !"/\\?#".toList.contains c
  | _ => false

def endsWithSlash (path : List Char) : Bool :=
  path.getLast? = some '/'

def cutLast (path : List Char) : List Char × List Char :=
  ((path.reverse.dropWhile (· ≠ '/')).reverse, (path.reverse.takeWhile (· ≠ '/')).reverse)

def parent (kind : PathKind) (path : List Char) : List Char :=
  let (before, last) := cutLast path
  if kind = .file && isNormalDrive last then path else before

def closesSegment (path : List Char) : Bool :=
  let (before, last) := cutLast path.dropLast
  !before.isEmpty && !startsWithDrive (last ++ ['/'])

def above (kind : PathKind) (hasSlash : Bool) (path : List Char) : List Char :=
  let path := if endsWithSlash path && closesSegment path then path.dropLast else path
  let path := parent kind path
  if hasSlash && !endsWithSlash path then path ++ ['/'] else path

/-- The path with a segment behind it, and whether that shows it to be a path of the machine
itself. -/
def withSegment (kind : PathKind) (path segment : List Char) (hasSlash : Bool) :
    List Char × Bool :=
  let slash := if hasSlash then ['/'] else []
  let path := if kind = .file && isNormalDrive (path.drop 1) && !segment.isEmpty then path ++ ['/']
    else path
  if isDotDot segment then (above kind hasSlash path, false)
  else if isDot segment then (if endsWithSlash path then path else path ++ ['/'], false)
  else if kind = .file && path.length = 1 && isDriveLetter segment then
    (path ++ segment.take 1 ++ ':' :: slash, true)
  else (path ++ segment ++ slash, false)

def withSegments (kind : PathKind) (path : List Char) : List (List Char) → List Char × Bool
  | [] => (path, false)
  | [last] => withSegment kind path last false
  | segment :: rest =>
    let (path, isLocal) := withSegment kind path segment true
    let (path, isLocalBelow) := withSegments kind path rest
    (path, isLocal || isLocalBelow)

structure Reading where
  path : String
  /-- Whether the path starts with a drive letter, so that there is no host. -/
  isLocal : Bool
  rest : List Char
deriving DecidableEq, Repr

def read (kind : PathKind) (path cs : List Char) : Reading :=
  let (body, rest) := cutBefore (fun c => c = '?' || c = '#') cs
  let segments := (body.splitOnP (isSlash (kind ≠ .other))).map fun s =>
    (Text.Percent.encode isPathEscape (.ofList s)).toList
  let (path, isLocal) := withSegments kind path segments
  let path := if kind = .file then '/' :: path.dropWhile (· = '/') else path
  ⟨.ofList path, isLocal, rest⟩

def readStart (kind : PathKind) (cs : List Char) : Reading :=
  match cs with
  | [] => ⟨if kind = .other then "" else "/", false, []⟩
  | c :: rest =>
    if isSlash (kind ≠ .other) c then read kind ['/'] rest
    else if kind = .other && (c = '?' || c = '#') then ⟨"", false, c :: rest⟩
    else read kind ['/'] (c :: rest)

end Path
end SiteCompiler.Url
