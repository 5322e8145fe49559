import SiteCompiler.Json.Basic
import SiteCompiler.Text.Cutting
import SiteCompiler.Text.Percent

namespace SiteCompiler.Route

structure Options where
  fallback : Option String
  locales : List String
  defaultLocale : String

/-- A location that has been routed; `pagePath` is empty when no page was found. -/
structure Location where
  baseUrl : String
  locale : String
  pathname : String
  pagePath : String
  params : List (String × String)
  query : String
deriving DecidableEq, Repr

def Location.isMatched (l : Location) : Bool :=
  l.pagePath ≠ ""

def Location.toJson (l : Location) : Json :=
  .object (Json.sortMembers [
    ("baseUrl", .string l.baseUrl),
    ("locale", .string l.locale),
    ("pathname", .string l.pathname),
    ("pagePath", .string l.pagePath),
    ("params", .object (l.params.map fun (k, v) => (k, .string v))),
    ("query", .string l.query)])

def belowBase (baseUrl path : String) : String :=
  if baseUrl = "/" then path
  else match Text.dropStart? baseUrl path with
    | some rest => if rest = "" || Text.startsWith rest "/" then rest else path
    | none => path

/-- Matches the parts of a pattern with segments; the captures are added to `params`, a later one of
a name replacing an earlier one. -/
def matchParts (params : List (String × String)) :
    List String → List String → Option (List (String × String))
  | [], [] => some params
  | [], _ :: _ => none
  | part :: parts, segments =>
    match Text.dropStart? "*" part with
    | some name =>
      if segments.isEmpty then none
      else some (Json.insertMember name
        ("/".intercalate (segments.map Text.Percent.decodeLossy)) params)
    | none =>
      match segments with
      | [] => none
      | segment :: rest =>
        match Text.dropStart? "$" part with
        | some name =>
          matchParts (Json.insertMember name (Text.Percent.decodeLossy segment) params) parts rest
        | none => if part = segment then matchParts params parts rest else none

def match? (pagePath : String) (segments : List String) : Option (List (String × String)) :=
  matchParts [] (Text.segments pagePath) segments

def cutQuery (location : String) : String × String :=
  let (path, query) := (Text.cutFirst? (· = '?') location).getD (location, "")
  (Text.before (· = '#') path, query)

def cutLocale (options : Options) (segments : List String) : String × List String :=
  match segments with
  | first :: rest =>
    if options.locales.contains first then (first, rest) else (options.defaultLocale, segments)
  | [] => (options.defaultLocale, [])

/-- Routes a location to the first page path that matches it, else to the fallback. -/
def route (baseUrl : String) (pagePaths : List String) (location : String) (options : Options) :
    Location :=
  let (path, query) := cutQuery location
  let (locale, segments) := cutLocale options (Text.segments (belowBase baseUrl path))
  let routed (pagePath : String) (params : List (String × String)) : Location :=
    { baseUrl, locale, pathname := "/" ++ "/".intercalate segments, pagePath, params, query }
  let found := pagePaths.findSome? fun pagePath =>
    (match? pagePath segments).map fun params => routed pagePath params
  found.getD (routed (options.fallback.getD "") [])

def isDynamic (pagePath : String) : Bool :=
  (Text.pieces '/' pagePath).any fun s => Text.startsWith s "$" || Text.startsWith s "*"

end SiteCompiler.Route
