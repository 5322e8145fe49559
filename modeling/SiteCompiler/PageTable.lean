import SiteCompiler.ModuleId
import SiteCompiler.Route

namespace SiteCompiler

structure PageTable where
  entries : List (String × String)
deriving DecidableEq, Repr

namespace PageTable

/-- The route of a page module; a last segment `index` stands for its directory. -/
def pageRoute? (id : String) : Option String := do
  let rest ← Text.dropStart? "/pages/" id
  let _ ← Dialect.ofPath? rest
  let path := ModuleId.stripExtension rest
  let route := if path = "index" then "" else (Text.dropEnd? "/index" path).getD path
  return "/" ++ route

/-- Static routes come before dynamic ones, and each kind in the order of its text. -/
def precedes (a b : String) : Bool :=
  match Route.isDynamic a, Route.isDynamic b with
  | false, true => true
  | true, false => false
  | _, _ => a ≤ b

def dropRepeats : List (String × String) → List (String × String)
  | [] => []
  | e :: rest =>
    match dropRepeats rest with
    | [] => [e]
    | f :: fs => if e.1 = f.1 then e :: fs else e :: f :: fs

def ofIds (ids : List String) : PageTable :=
  let entries := ids.filterMap fun id => (pageRoute? id).map fun route => (route, id)
  ⟨dropRepeats (entries.mergeSort fun a b => precedes a.1 b.1)⟩

def empty : PageTable := ⟨[]⟩

def routes (t : PageTable) : List String :=
  t.entries.map (·.1)

def moduleId? (t : PageTable) (route : String) : Option String :=
  t.entries.lookup route

def size (t : PageTable) : Nat :=
  t.entries.length

end PageTable
end SiteCompiler
