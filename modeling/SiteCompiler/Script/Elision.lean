import SiteCompiler.Script.Names

namespace SiteCompiler.Script

structure Uses where
  /-- The names that are used as values. -/
  used : List String
  /-- The names that are declared as values. -/
  declared : List String
  /-- The names that stand for types only, or for what exists elsewhere. -/
  unmade : List String

namespace Uses

def makesValue : Form → Bool
  | .typeNamed _ => false
  | .ambient _ => false
  | .nothing => false
  | .required isType _ => !isType
  | .partImport isType _ _ => !isType
  | .importNames isType _ _ _ => !isType
  | .exported f => makesValue f
  | _ => true

mutual

def fills : List Stmt → Bool
  | [] => false
  | .mk _ f :: rest => leaves f || fills rest

def leaves : Form → Bool
  | .space _ body => fills body
  | .exported f => leaves f
  | f => makesValue f

end

def made (f : Form) : List String :=
  match f with
  | .importNames isType _ clause _ =>
    if isType then []
    else
      let typed := (clause.names?.getD []).filter (·.isType) |>.map (·.inner)
      clause.names.filter (!typed.contains ·)
  | .required isType name => if isType then [] else [name]
  | f => if leaves f then Names.declaredBy f else []

def mentioned : Form → List String
  | .importNames _ _ clause _ => clause.names
  | .typeNamed name => [name]
  | .required _ name => [name]
  | .ambient f => mentioned f
  | .exported f => mentioned f
  | f => Names.declaredBy f

/-- What a program does with its names, given the names that it uses as values. -/
def ofProgram (used : List String) (body : List Stmt) : Uses :=
  let made := body.flatMap fun s => made s.form
  { used
    declared := Names.declaredIn body
    unmade := (body.flatMap fun s => mentioned s.form).filter (!made.contains ·) }

def needs (u : Uses) (name : String) : Bool :=
  u.used.contains name && !u.declared.contains name

def keepsExport (u : Uses) (n : ExportName) : Bool :=
  !n.isType && match n.inner with
    | .word name => !u.unmade.contains name
    | .text _ => true

/-- An import without the names that nothing needs, or nothing if that leaves none. One that lists no
names from the start asks for the module alone. -/
def neededImport? (u : Uses) (phase : String) (clause : ImportClause) (request : Request) :
    Option Form :=
  let kept : ImportClause := {
    default? := clause.default?.filter u.needs
    everything? := clause.everything?.filter u.needs
    names? := (clause.names?.map fun names =>
      names.filter fun n => !n.isType && u.needs n.inner).filter (!·.isEmpty) }
  if clause = ⟨none, none, some []⟩ then some (.importBare request)
  else if kept = ⟨none, none, none⟩ then none
  else some (.importNames false phase kept request)

/-- An import or an export without what only types needed; there is none if nothing else is left. -/
def keep? (u : Uses) : Form → Option Form
  | .importNames isType phase clause request =>
    if isType then none else u.neededImport? phase clause request
  | .exportAll isType alias? request =>
    if isType then none else some (.exportAll isType alias? request)
  | .exportNames isType names request? =>
    let kept := names.filter fun n =>
      if request?.isSome then !n.isType else u.keepsExport n
    if isType || (kept.isEmpty && !names.isEmpty) then none
    else some (.exportNames false kept request?)
  | .exportDefault (.name name) =>
    if u.unmade.contains name then none else some (.exportDefault (.name name))
  | f => some f

def keepsName (u : Uses) : Form → Bool
  | .partImport isType name _ => !isType && u.used.contains name
  | .required isType name => !isType && u.used.contains name
  | _ => true

def isModuleItem : Form → Bool
  | .importBare _ => true
  | .importNames .. => true
  | .exportAll .. => true
  | .exportNames .. => true
  | .exportDefault _ => true
  | .exported _ => true
  | _ => false

/-- Whether a statement that leaves nothing leaves a gap in the imports and exports. A namespace is
taken apart before those are looked at. -/
def leavesGap : Form → Bool
  | .exported (.space ..) => false
  | .exported (.ambient (.space ..)) => false
  | f => isModuleItem f

def emptyExport : Stmt :=
  .mk 0 (.exportNames false [] none)

/-- Statements, each with what it was lowered to, without what only types needed. A program that was
a module stays one. -/
def kept (u : Uses) (found : List (Stmt × List Stmt)) : List Stmt :=
  let kept := found.map fun (x, lowered) =>
    (x, lowered.filterMap fun (s : Stmt) => (u.keep? s.form).map (Stmt.mk s.place))
  let body := kept.flatMap (·.2)
  let hasGap := kept.any fun (x, left) => left.isEmpty && leavesGap x.form
  if hasGap && !body.any (fun s => isModuleItem s.form) then body ++ [emptyExport] else body

end Uses
end SiteCompiler.Script
