import SiteCompiler.Url.Host

namespace SiteCompiler

/-- What follows `//` in a URL: the user with a final `@` or nothing, the host, and a port that is
not the scheme's own. -/
structure Url.Authority where
  user : String
  host : Option Url.Host
  port : Option Nat
deriving DecidableEq, Repr

/-- The path of a URL with an authority is empty or starts with a slash. -/
structure Url where
  scheme : String
  authority : Option Url.Authority
  path : String
  query : Option String
  fragment : Option String
deriving DecidableEq, Repr

namespace Url

def defaultPort? (scheme : String) : Option Nat :=
  match scheme with
  | "http" => some 80
  | "ws" => some 80
  | "https" => some 443
  | "wss" => some 443
  | "ftp" => some 21
  | _ => none

def isWebScheme (scheme : String) : Bool :=
  (defaultPort? scheme).isSome

def isSpecial (scheme : String) : Bool :=
  isWebScheme scheme || scheme = "file"

def Authority.text (a : Authority) : String :=
  let host := (a.host.map Host.text).getD ""
  let port := match a.port with
    | some n => ":" ++ .ofList (Nat.toDigits 10 n)
    | none => ""
  "//" ++ a.user ++ host ++ port

def marked (mark : String) : Option String → String
  | some s => mark ++ s
  | none => ""

def text (u : Url) : String :=
  let authority := match u.authority with
    | some a => a.text
    | none => if Text.startsWith u.path "//" then "/." else ""
  u.scheme ++ ":" ++ authority ++ u.path ++ marked "?" u.query ++ marked "#" u.fragment

def host? (u : Url) : Option Host :=
  u.authority.bind (·.host)

def port? (u : Url) : Option Nat :=
  u.authority.bind (·.port)

def isOpaque (u : Url) : Bool :=
  u.authority.isNone && !Text.startsWith u.path "/"

end Url
end SiteCompiler
