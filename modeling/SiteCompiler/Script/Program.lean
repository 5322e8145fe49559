import SiteCompiler.Script.Elements
import SiteCompiler.Script.Elision
import SiteCompiler.Script.Lowering
import SiteCompiler.Script.Printer
import SiteCompiler.Script.Statements

namespace SiteCompiler.Script

namespace Grammar

def atDepth : Nat → Grammar
  | 0 => empty
  | n + 1 => {
      value := fun allowsResultType r => (atDepth n).valueRule allowsResultType r
      chain := fun r => (atDepth n).chainRule r
      pattern := fun r => (atDepth n).patternRule r
      element := fun r => Elements.rule (atDepth n) r
      statement := fun isListed r => (atDepth n).statementRule isListed r
      type := fun r => Types.rule (atDepth n) r }

end Grammar

structure Program where
  hashbang? : Option String
  body : List Stmt
  /-- Where the program ends. -/
  close : Place
  comments : List (Place × List Comment)
  pragmas : List Pragma
  /-- The words that start with a low line and are no properties. -/
  lowWords : List String
  /-- The names of values that types mention. -/
  mentioned : List String

namespace Program

open Reader

def cutHashbang : List Char → Option String × List Char
  | '#' :: '!' :: rest =>
    let line := '#' :: '!' :: rest.takeWhile (!Comment.isBreak ·)
    (some (.ofList line), rest.drop (line.length - 2))
  | cs => (none, cs)

def exportedBy : Form → List Points
  | .exportAll _ alias? _ => alias?.toList.map (·.points)
  | .exportNames _ names _ => names.map (·.outer.points)
  | .exportDefault _ => [Points.ofString "default"]
  | .exported f => (Names.declaredBy f).map Points.ofString
  | _ => []

def exportsTwice (body : List Stmt) : Bool :=
  let names := body.flatMap fun s => exportedBy s.form
  names.eraseDups.length ≠ names.length

def reader (g : Grammar) (cs : List Char) (start : Place) : Reader (List Stmt) := do
  enter none start cs
  let body ← g.statementsFrom true (← get).bound
  require ((← token) = .finish)
  return body

def outermost : Surroundings :=
  ⟨true, false, true, false, false, false, true⟩

/-- Twice the length of the text bounds the depth of a program, because no more than two constructs
start with the same token without a third one between them. Where there are no types, exporting a
name twice is an error. -/
def read? (dialect : Dialect) (source : String) : Option Program := do
  let (hashbang?, cs) := cutHashbang (source.toList.dropWhile (· = '\ufeff'))
  let start := (hashbang?.map String.length).getD 0
  let bound := cs.length + 2
  let reading : Reading := { (default : Reading) with surroundings := outermost, dialect, bound }
  let (body, r) ← ((reader (Grammar.atDepth (4 * bound)) cs start reading).run.run []).1
  guard (r.pending = 0 && (dialect.hasTypes || !exportsTwice body))
  return {
    hashbang?, body, close := r.place, comments := r.comments, pragmas := r.pragmas
    lowWords := r.lowWords, mentioned := r.mentioned }

def lowerItems (s : Scene) (before : Earlier) : List Stmt → Lowering (List (Stmt × List Stmt))
  | [] => return []
  | x :: rest => do
    let found ← Lowering.item s before x
    return (x, found) :: (← lowerItems s (before.add x) rest)

/-- How elements are made; where there are none, comments tell nothing about it. -/
def creation? (dialect : Dialect) (p : Program) : Option Creation :=
  Creation.ofPragmas? (if dialect.hasElements then p.pragmas else [])

def isImport : Form → Bool
  | .importBare _ => true
  | .importNames .. => true
  | _ => false

def withImports (imports body : List Stmt) : List Stmt :=
  let after := (body.reverse.takeWhile fun s => !isImport s.form).reverse
  let before := body.take (body.length - after.length)
  if before.isEmpty then
    let (directives, body) := body.span Lowering.isDirective
    directives ++ imports ++ body
  else before ++ imports ++ after

def elementImports (c : Creation) (l : Lowered) : List Stmt :=
  match c with
  | .called .. => []
  | .imported source => Creation.imports source l.makers

/-- What only types needed is left out of a program for which there can be types. -/
def neededNames (hasTypes : Bool) (p : Program) : List Stmt :=
  let used := Names.ofStmts p.body ++ p.mentioned
  if hasTypes then p.body.filter fun s => (Uses.ofProgram used p.body).keepsName s.form
  else p.body

def keptOf (hasTypes : Bool) (p : Program) (l : Lowered) (found : List (Stmt × List Stmt)) :
    List Stmt :=
  let body := found.flatMap (·.2)
  let used := Names.ofStmts p.body ++ p.mentioned ++ Names.ofStmts body ++ l.roots
  if hasTypes then (Uses.ofProgram used p.body).kept found else body

/-- The statements of a plain script that does what the program does, if there is one. -/
def plainBody? (dialect : Dialect) (p : Program) : Option (List Stmt) := do
  let creation ← p.creation? dialect
  let items := lowerItems ⟨creation, [], true⟩ .none (p.neededNames dialect.hasTypes)
  let (found, l) ← items.run ⟨[], p.lowWords, [], []⟩
  return withImports (elementImports creation l) (p.keptOf dialect.hasTypes l found)

end Program

/-- A source written out as a plain script, up to its specifiers; there is none if it is no program
of the dialect, or if no plain script can take its place. -/
def template? (dialect : Dialect) (source : String) : Option Template := do
  let p ← Program.read? dialect source
  let body ← p.plainBody? dialect
  let (_, pen) := (Writing.program p.hashbang? body p.close).run (.start p.comments)
  return pen.template

end SiteCompiler.Script
