import SiteCompiler.Script.Names
import SiteCompiler.Script.Syntax

namespace SiteCompiler.Script.Namespace

def member (inner name : String) : Expr :=
  .property (.name inner) false name

def assigned (inner name : String) (value : Expr) : Expr :=
  .assign "=" (member inner name) value

def exportOf (inner name : String) : Stmt :=
  .mk 0 (.expression (assigned inner name (.name name)))

def isVariable : Expr → Bool
  | .name _ => true
  | .defaulted (.name _) _ => true
  | _ => false

def exportedDeclarator (inner : String) : Expr → Expr
  | .defaulted (.name name) value => .defaulted (.name name) (assigned inner name value)
  | e => e

def exportedVariables (place : Place) (inner kind : String) (found : List Expr) : List Stmt :=
  if found.all isVariable then [.mk place (.bindings kind (found.map (exportedDeclarator inner)))]
  else
    let exports := (Names.ofPatterns found).map fun name => assigned inner name (.name name)
    [.mk place (.bindings kind found), .mk 0 (.expression (.sequence exports))]

/-- The object that a namespace fills: what is there already, or a new one, which the namespace
around it exports. -/
def object (name : String) (parent? : Option String) : Expr :=
  let empty : Expr := .object 0 [] false
  let made : Expr := match parent? with
    | none => .assign "=" (.name name) empty
    | some parent =>
      .assign "=" (.name name) (.binary "||" (member parent name) (assigned parent name empty))
  .binary "||" (.name name) made

def call (place : Place) (name inner : String) (parent? : Option String) (body : List Stmt) :
    Stmt :=
  let f : Expr := .function .plain [.mk [] false (.name inner)] body 0
  .mk place (.expression (.call false (.parens f) false [.mk 0 (object name parent?)] 0))

def declaration (name : String) (isExported : Bool) : Stmt :=
  let f : Form := .bindings "let" [.name name]
  .mk 0 (if isExported then .exported f else f)

end SiteCompiler.Script.Namespace
