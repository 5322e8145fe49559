import SiteCompiler.Url.Basic
import SiteCompiler.Url.Path

namespace SiteCompiler.Url

def isUserEscape (c : Char) : Bool :=
  isPathEscape c || "/:;=@[\\]^|".toList.contains c

def isQueryEscape (special : Bool) (c : Char) : Bool :=
  c = ' ' || c = '"' || c = '#' || c = '<' || c = '>' || (special && c = '\'')

/-- The text without surrounding controls and blanks, and without tabs and line breaks. -/
def stripped (written : String) : List Char :=
  let isEdge (c : Char) := c.toNat ≤ 0x20
  let cs := ((written.toList.dropWhile isEdge).reverse.dropWhile isEdge).reverse
  cs.filter fun c => c ≠ '\t' && c ≠ '\n' && c ≠ '\r'

def isSchemeChar (c : Char) : Bool :=
  c.isAlphanum || c = '+' || c = '-' || c = '.'

def cutScheme? (cs : List Char) : Option (String × List Char) :=
  match cs with
  | [] => none
  | c :: _ =>
    if c.isAlpha then
      match cs.dropWhile isSchemeChar with
      | ':' :: rest => some (.ofList ((cs.takeWhile isSchemeChar).map Char.toLower), rest)
      | _ => none
    else none

def parseTail (special : Bool) (cs : List Char) : Option String × Option String :=
  let fragment (cs : List Char) := Text.Percent.encode isFragmentEscape (.ofList cs)
  match cs with
  | '#' :: rest => (none, some (fragment rest))
  | '?' :: rest =>
    let (query, rest) := cutBefore (· = '#') rest
    let query := Text.Percent.encode (isQueryEscape special) (.ofList query)
    (some query, (rest.head?.map fun _ => fragment rest.tail))
  | _ => (none, none)

def pathKind (scheme : String) : PathKind :=
  if scheme = "file" then .file else if isSpecial scheme then .web else .other

def userText (written : List Char) : String :=
  let (name, rest) := cutBefore (· = ':') written
  let escape (cs : List Char) := Text.Percent.encode isUserEscape (.ofList cs)
  let password := match rest with
    | ':' :: c :: cs => ":" ++ escape (c :: cs)
    | _ => ""
  if name.isEmpty && password = "" then "" else escape name ++ password ++ "@"

def cutHost (inside : Bool) : List Char → List Char × List Char
  | [] => ([], [])
  | c :: rest =>
    if c = ':' && !inside then ([], c :: rest)
    else
      let (host, rest) := cutHost (if c = '[' then true else if c = ']' then false else inside) rest
      (c :: host, rest)

def parsePort (scheme : String) (cs : List Char) : Except Error (Option Nat × List Char) :=
  let digits := cs.takeWhile Char.isDigit
  let rest := cs.dropWhile Char.isDigit
  let port := digits.foldl (fun n c => n * 10 + (c.toNat - 48)) 0
  if 65535 < port then .error .invalidPort
  else if rest.isEmpty || rest.head? = some '\\' then
    .ok (if digits.isEmpty || defaultPort? scheme = some port then none else some port, rest)
  else .error .invalidPort

def cutUser (written : List Char) : Option (List Char × List Char) :=
  match written.reverse.dropWhile (· ≠ '@') with
  | [] => none
  | _ :: user => some (user.reverse, (written.reverse.takeWhile (· ≠ '@')).reverse)

def parseAuthority (scheme : String) (cs : List Char) : Except Error (Authority × List Char) := do
  let special := isSpecial scheme
  let (written, rest) := cutBefore (fun c => isSlash special c || c = '?' || c = '#') cs
  let (user, hostPort) := (cutUser written).getD ([], written)
  if (cutUser written).isSome && user.isEmpty && hostPort.isEmpty && !rest.isEmpty then
    throw .emptyHost
  let user := userText user
  let (host, port) := cutHost false hostPort
  if host.isEmpty && (special || !port.isEmpty || user ≠ "") then throw .emptyHost
  let host ←
    if host.isEmpty then pure none
    else if special then some <$> Host.parse host
    else some <$> Host.parseOpaque host
  let (port, beyond) ← match port with
    | [] => pure (none, [])
    | _ :: digits => parsePort scheme digits
  return (⟨user, host, port⟩, beyond ++ rest)

def parseHierarchical (scheme : String) (cs : List Char) : Except Error Url := do
  let special := isSpecial scheme
  let (authority, rest) ← parseAuthority scheme cs
  let read := Path.readStart (pathKind scheme) rest
  let (query, fragment) := parseTail special read.rest
  return ⟨scheme, some authority, read.path, query, fragment⟩

def withTail (base : Url) (rest : List Char) : Url :=
  let (query, fragment) := parseTail (isSpecial base.scheme) rest
  { base with query, fragment }

/-- A URL that has the base's authority, with a path that is read onto the given one. -/
def withPath (base : Url) (path cs : List Char) : Url :=
  let read := Path.read (pathKind base.scheme) path cs
  withTail { base with path := read.path } read.rest

def directory (base : Url) : List Char :=
  match Path.parent (pathKind base.scheme) base.path.toList with
  | [] => ['/']
  | path => path

def parseRelative (base : Url) (cs : List Char) : Except Error Url :=
  match cs with
  | [] => .ok { base with fragment := none }
  | '?' :: _ => .ok (base.withTail cs)
  | '#' :: _ => .ok { base with fragment := (parseTail (isSpecial base.scheme) cs).2 }
  | c :: rest =>
    let slashes := cs.takeWhile (isSlash true)
    if 2 ≤ slashes.length then
      parseHierarchical base.scheme
        (if ['/', '/'].isPrefixOf cs then cs.drop 2 else cs.dropWhile (isSlash true))
    else if isSlash true c then .ok (base.withPath ['/'] rest)
    else .ok (base.withPath base.directory cs)

def fileBelow (host? : Option Host) (path cs : List Char) : Url :=
  let read := Path.read .file path cs
  let (query, fragment) := parseTail true read.rest
  ⟨"file", some ⟨"", if read.isLocal then none else host?, none⟩, read.path, query, fragment⟩

/-- A `file` URL from behind its two slashes; a drive letter is no host, and the machine itself
needs none. -/
def parseFileHost (cs : List Char) : Except Error Url := do
  let (written, rest) := cutBefore (fun c => isSlash true c || c = '?' || c = '#') cs
  if Path.isDriveLetter written then return fileBelow none ['/'] cs
  if written.isEmpty then return fileBelow none ['/'] rest
  match ← Host.parse written with
  | .domain "localhost" => return fileBelow none ['/'] rest
  | host =>
    let read := Path.readStart .file rest
    let (query, fragment) := parseTail true read.rest
    return ⟨"file", some ⟨"", if read.isLocal then none else some host, none⟩, read.path, query,
      fragment⟩

def parseFilePath (base? : Option Url) (cs : List Char) : Url :=
  match base? with
  | none => fileBelow none [] cs
  | some base =>
    let first := ((Text.pieces '/' base.path).getD 1 "").toList
    if Path.startsWithDrive (cs.drop 1) then fileBelow none [] cs
    else if Path.isNormalDrive first then fileBelow none ('/' :: first) cs
    else fileBelow base.host? [] cs

def parseFile (base? : Option Url) (cs : List Char) : Except Error Url :=
  match cs.takeWhile (isSlash true), base?, cs with
  | _ :: _ :: _, _, _ => parseFileHost (cs.drop 2)
  | [_], _, _ => .ok (parseFilePath base? cs)
  | [], none, _ => .ok (fileBelow none ['/'] cs)
  | [], some base, [] => .ok { base with fragment := none }
  | [], some base, '?' :: _ => .ok (base.withTail cs)
  | [], some base, '#' :: _ => .ok { base with fragment := (parseTail true cs).2 }
  | [], some base, _ =>
    if Path.startsWithDrive cs then .ok (fileBelow none ['/'] cs)
    else .ok (base.withPath base.directory cs)

def parseOther (scheme : String) (cs : List Char) : Except Error Url :=
  match cs with
  | '/' :: '/' :: rest => parseHierarchical scheme rest
  | '/' :: rest =>
    let read := Path.read .other ['/'] rest
    let (query, fragment) := parseTail false read.rest
    .ok ⟨scheme, none, read.path, query, fragment⟩
  | _ =>
    let (path, rest) := cutBefore (fun c => c = '?' || c = '#') cs
    let (query, fragment) := parseTail false rest
    .ok ⟨scheme, none, Text.Percent.encode (fun _ => false) (.ofList path), query, fragment⟩

def parseWith (base : Option Url) (written : String) : Except Error Url :=
  let cs := stripped written
  match cutScheme? cs with
  | some (scheme, rest) =>
    if scheme = "file" then
      parseFile (base.filter fun b => b.scheme = "file") rest
    else if isWebScheme scheme then
      let slashes := (rest.takeWhile (isSlash true)).length
      match base with
      | some b =>
        if slashes < 2 && b.scheme = scheme then parseRelative b rest
        else parseHierarchical scheme (rest.dropWhile (isSlash true))
      | none => parseHierarchical scheme (rest.dropWhile (isSlash true))
    else parseOther scheme rest
  | none =>
    match base with
    | none => .error .relativeWithoutBase
    | some b =>
      if cs.head? = some '#' then .ok { b with fragment := (parseTail (isSpecial b.scheme) cs).2 }
      else if b.isOpaque then .error .relativeWithOpaqueBase
      else if b.scheme = "file" then parseFile (some b) cs
      else parseRelative b cs

def parse (written : String) : Except Error Url :=
  parseWith none written

def join (base : Url) (reference : String) : Except Error Url :=
  parseWith (some base) reference

end SiteCompiler.Url
