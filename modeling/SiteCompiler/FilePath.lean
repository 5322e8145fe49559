import SiteCompiler.Text.Cutting

namespace SiteCompiler.FilePath

def isAbsolute (path : String) : Bool :=
  Text.startsWith path "/"

def join (base name : String) : String :=
  if isAbsolute name || base = "" then name
  else if Text.endsWith base "/" then base ++ name
  else base ++ "/" ++ name

inductive Component where
  | root
  | current
  | parent
  | named (name : String)
deriving DecidableEq, Repr

def component? (piece : String) : Option Component :=
  if piece = "" ∨ piece = "." then none
  else if piece = ".." then some .parent
  else some (.named piece)

/-- What a path consists of; a dot counts only at the start of a relative path. -/
def components (path : String) : List Component :=
  match Text.pieces '/' path with
  | "" :: rest =>
    if path = "" then [] else .root :: rest.filterMap component?
  | "." :: rest => .current :: rest.filterMap component?
  | rest => rest.filterMap component?

def below? (base path : String) : Option (List Component) :=
  (components base).isPrefixOf? (components path)

def trimPieces (pieces : List String) : List String :=
  (pieces.reverse.dropWhile fun p => p = "" || p = ".").reverse

def parent? (path : String) : Option String :=
  match (components path).getLast? with
  | none => none
  | some .root => none
  | some .current => some ""
  | some _ =>
    match Text.pieces '/' path with
    | "" :: rest => some ("/" ++ "/".intercalate (trimPieces (trimPieces rest).dropLast))
    | "." :: rest =>
      some ("/".intercalate ("." :: trimPieces (trimPieces rest).dropLast))
    | rest => some ("/".intercalate (trimPieces (trimPieces rest).dropLast))

end SiteCompiler.FilePath
