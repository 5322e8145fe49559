import SiteCompiler.Script.Comment
import SiteCompiler.Script.Syntax

namespace SiteCompiler.Script

inductive Maker where
  /-- Makes elements with one child at most. -/
  | single
  /-- Makes elements with a list of children. -/
  | several
  /-- The kind of the elements that only group others. -/
  | fragment
  /-- Makes elements whose key depends on the order of the properties. -/
  | keyed
deriving DecidableEq, Repr

namespace Maker

def exportedName : Maker → String
  | single => "jsx"
  | several => "jsxs"
  | fragment => "Fragment"
  | keyed => "createElement"

def module (source : String) : Maker → String
  | keyed => source
  | _ => source ++ "/jsx-runtime"

end Maker

inductive Creation where
  | called (factory fragment : Expr)
  | imported (source : String)

structure Instructions where
  factory? : Option String
  fragment? : Option String
  source? : Option String
  isImported : Bool

namespace Instructions

def none : Instructions := ⟨.none, .none, .none, false⟩

def add (i : Instructions) : Pragma → Instructions
  | .factory name => { i with factory? := some name }
  | .fragment name => { i with fragment? := some name }
  | .source name => { i with source? := some name }
  | .runtime isImported => { i with isImported }

end Instructions

namespace Creation

def ofPath (path : String) : Expr :=
  match path.splitOn "." with
  | [] => .absent
  | first :: rest =>
    let start : Expr := if first = "this" then .keyword first else .name first
    rest.foldl (fun e name => .property e false name) start

def standardSource : String := "react"

def standardFactory : String := "React.createElement"

def standardFragment : String := "React.Fragment"

/-- What is told about one way of making elements makes no sense with the other one. -/
def ofInstructions? (i : Instructions) : Option Creation :=
  if i.isImported then
    if i.factory?.isSome || i.fragment?.isSome then none
    else some (imported (i.source?.getD standardSource))
  else if i.source?.isSome then none
  else
    some (called (ofPath (i.factory?.getD standardFactory))
      (ofPath (i.fragment?.getD standardFragment)))

def ofPragmas? (pragmas : List Pragma) : Option Creation :=
  ofInstructions? (pragmas.foldl Instructions.add .none)

def rootOf : Expr → List String
  | .name name => [name]
  | .property object _ _ => rootOf object
  | _ => []

/-- The variables that stand for what makes elements of a kind, whether they are mentioned or not. -/
def roots (c : Creation) (isFragment : Bool) : List String :=
  match c, isFragment with
  | called factory _, false => rootOf factory
  | called _ fragment, true => rootOf fragment
  | imported _, false => rootOf (ofPath standardFactory)
  | imported _, true => rootOf (ofPath standardFragment)

/-! ### Properties -/

def prototypeKey : String := "__proto__"

def givesPrototype : Member → Bool
  | .property (.label name) _ => name = prototypeKey
  | .property (.string key) _ => key = Points.ofString prototypeKey
  | .shorthand name _ => name = prototypeKey
  | .method _ (.label name) _ => name = prototypeKey
  | _ => false

/-- The members that an attribute stands for: one without a value is a mark, and an object that is
spread is dissolved, unless it has a prototype. -/
def members : Member → List Member
  | .property key .absent => [.property key (.keyword "true")]
  | .spread (.object place members endsInComma) =>
    if members.any givesPrototype then [.spread (.object place members endsInComma)] else members
  | m => [m]

def hasPrototype : Expr → Bool
  | .object _ members _ => members.any givesPrototype
  | _ => false

/-- The properties of an element as one expression; what is spread alone stands for itself. -/
def properties (attributes : List Member) : Expr :=
  match attributes.flatMap members, attributes with
  | [.spread e], _ => if hasPrototype e then .object 0 [.spread e] false else e
  | [], [] => .keyword "null"
  | members, _ => .object 0 members false

def call (factory : Expr) (kind : Argument) (attributes : List Member) (children : List Argument)
    (close : Place) : Expr :=
  .call true factory false (kind :: .mk 0 (properties attributes) :: children) close

/-! ### Imported functions -/

def isKey : Member → Bool
  | .property (.label name) _ => name = "key"
  | _ => false

def isBareKey : Member → Bool
  | .property (.label name) .absent => name = "key"
  | _ => false

def isSpread : Member → Bool
  | .spread _ => true
  | _ => false

def keyComesLate (attributes : List Member) : Bool :=
  (attributes.dropWhile (!isSpread ·)).any isKey

def cutKey (attributes : List Member) : List Member × List Member :=
  attributes.partition isKey

def childrenOf : List Argument → List Member × Bool
  | [] => ([], false)
  | [.mk place (.spread e)] => (listed [.mk place (.spread e)], true)
  | [.mk _ e] => ([.property (.label "children") e], false)
  | children => (listed children, true)
where
  listed (children : List Argument) : List Member :=
    [.property (.label "children") (.array (children.map (·.value)) false)]

def keyValue? (keys : List Member) : Option Expr :=
  match keys.getLast? with
  | some (.property _ value) => some value
  | _ => none

def importedCall (maker : Expr) (kind : Argument) (properties : List Member) (key? : Option Expr)
    (close : Place) : Expr :=
  .call true maker false
    (kind :: .mk 0 (.object 0 properties false) :: key?.toList.map (Argument.mk 0 ·)) close

/-- The imports of what makes elements, under the names that it has been given. -/
def imports (source : String) (makers : List (Maker × String)) : List Stmt :=
  let modules := (makers.map fun (m, _) => m.module source).eraseDups
  modules.map fun module =>
    let found := makers.filter fun (m, _) => m.module source = module
    let names := found.map fun (m, name) => ImportName.mk false (.word m.exportedName) name
    .mk 0 (.importNames false "" ⟨none, none, some names⟩ ⟨Points.ofString module, none⟩)

end Creation
end SiteCompiler.Script
