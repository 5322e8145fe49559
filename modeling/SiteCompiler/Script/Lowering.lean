import SiteCompiler.Script.Creation
import SiteCompiler.Script.Enumerations
import SiteCompiler.Script.Namespaces

namespace SiteCompiler.Script

structure Scene where
  creation : Creation
  /-- The members of enumerations around that may be told by their names alone, with the
  enumerations. -/
  members : List (String × String)
  /-- Whether nothing but the program is around. -/
  isOutermost : Bool

structure Lowered where
  enumerations : Constant.Enumerations
  /-- The names that can be given to nothing new. -/
  taken : List String
  /-- What has been imported to make elements, with its names. -/
  makers : List (Maker × String)
  /-- The variables that elements stand in for. -/
  roots : List String

abbrev Lowering := StateT Lowered Option

/-- The names that statements before have declared: for values, and in other ways. -/
structure Earlier where
  values : List String
  others : List String

def othersOf : Form → List String
  | .importNames _ _ clause _ => clause.names
  | .typeNamed name => [name]
  | .required _ name => [name]
  | .ambient f => othersOf f
  | .exported f => othersOf f
  | _ => []

namespace Earlier

def none : Earlier := ⟨[], []⟩

def add (e : Earlier) (s : Stmt) : Earlier :=
  ⟨Names.declaredBy s.form ++ e.values, othersOf s.form ++ e.others⟩

end Earlier

namespace Lowering

def inside (s : Scene) (bound : List String) : Scene :=
  { s with members := s.members.filter fun (name, _) => !bound.contains name, isOutermost := false }

def inBlock (s : Scene) (body : List Stmt) : Scene :=
  inside s (Names.declaredAmong body)

def nameIn (s : Scene) (name : String) : Expr :=
  match s.members.lookup name with
  | some enum => .property (.name enum) false name
  | none => .name name

def propertiesOf (parameters : List Parameter) : List String :=
  parameters.flatMap fun (.mk _ isProperty pattern) =>
    if isProperty then Names.ofPattern pattern else []

def keepParameter (name : String) : Stmt :=
  .mk 0 (.expression (.assign "=" (.property (.keyword "this") false name) (.name name)))

/-- Whether a statement calls the constructor of the class that is extended. -/
def callsSuper : Stmt → Bool
  | .mk _ (.expression (.call _ (.keyword "super") _ _ _)) => true
  | _ => false

def isDirective : Stmt → Bool
  | .mk _ (.directive _) => true
  | _ => false

/-- A constructor's body with the properties that its parameters declare: they are set first of all,
but after the constructor of the class that is extended. -/
def withProperties (names : List String) (body : List Stmt) : List Stmt :=
  let kept := names.map keepParameter
  match body.span (!callsSuper ·) with
  | (before, call :: after) => before ++ call :: kept ++ after
  | (body, []) =>
    let (directives, body) := body.span isDirective
    directives ++ kept ++ body

def keeping : Expr → Expr
  | .function head parameters body close =>
    .function head parameters (withProperties (propertiesOf parameters) body) close
  | e => e

/-- Whether an expression makes something, and does not only tell the type of a function. -/
def isMade : Expr → Bool
  | .function head _ _ _ => head.hasBody
  | _ => true

def isTypeOnly (head : MemberHead) (value : Expr) : Bool :=
  head.isDeclared || !isMade value

def hole : Stmt := .mk 0 (.block [])

/-- The variable of an enumeration: one that was declared before, or else a new one, which outermost
and not exported may be declared again. -/
def holderOf (s : Scene) (before : Earlier) (isExported : Bool) (name : String) :
    Enumeration.Holder :=
  if before.values.contains name || before.others.contains name then .reused
  else if isExported || !s.isOutermost then .fresh
  else .shared

/-- What an expression was lowered to, in parentheses if it would be a declaration only now. -/
def undeclared (e lowered : Expr) : Expr :=
  if lowered.isDeclaration && !e.isDeclaration then .parens lowered else lowered

def exportedForm : Form → Form
  | .expression e => .expression e
  | f => .exported f

def freshName (name : String) : Lowering String := do
  let fresh := Names.fresh (← get).taken name
  modify fun l => { l with taken := fresh :: l.taken }
  return fresh

/-- The name of what makes elements, which is imported when it is needed first. -/
def makerName (m : Maker) : Lowering Expr := do
  match (← get).makers.lookup m with
  | some name => return .name name
  | none =>
    let name ← freshName m.exportedName
    modify fun l => { l with makers := l.makers ++ [(m, name)] }
    return .name name

def importedElement (place : Place) (tag : Expr) (attributes : List Member)
    (children : List Argument) (close : Place) : Lowering Expr := do
  let kind ← if tag.isAbsent then makerName .fragment else pure tag
  guard !(attributes.any Creation.isBareKey)
  let isLate := Creation.keyComesLate attributes
  let (keys, others) := if isLate then ([], attributes) else Creation.cutKey attributes
  let (inner, isList) := Creation.childrenOf children
  let maker ← makerName (if isLate then .keyed else if isList then .several else .single)
  return Creation.importedCall maker (.mk place kind) (others.flatMap Creation.members ++ inner)
    (Creation.keyValue? keys) close

def element (c : Creation) (place : Place) (tag : Expr) (attributes : List Member)
    (children : List Argument) (close : Place) : Lowering Expr := do
  modify fun l => { l with roots := c.roots tag.isAbsent ++ l.roots }
  match c with
  | .imported _ => importedElement place tag attributes children close
  | .called factory fragment =>
    let kind : Argument := if tag.isAbsent then .mk 0 fragment else .mk place tag
    return Creation.call factory kind attributes children close

mutual

def expr (s : Scene) : Expr → Lowering Expr
  | .absent => return .absent
  | .name name => return nameIn s name
  | .keyword text => return .keyword text
  | .label name => return .label name
  | .number text => return .number text
  | .regex text => return .regex text
  | .string value => return .string value
  | .template texts values => return .template texts (← exprs s values)
  | .tagged tag template => return .tagged (← expr s tag) (← expr s template)
  | .array elements endsInComma => return .array (← exprs s elements) endsInComma
  | .object place ms endsInComma => return .object place (← members s ms) endsInComma
  | .arrayPattern elements => return .arrayPattern (← patterns s elements)
  | .objectPattern ms => return .objectPattern (← patternMembers s ms)
  | .arrayTarget elements => return .arrayTarget (← exprs s elements)
  | .objectTarget ms => return .objectTarget (← members s ms)
  | .defaulted target value => return .defaulted (← expr s target) (← expr s value)
  | .function head ps body close => do
    let bound := head.name :: Names.ofParameters ps
    let ps ← parameters (inside s bound) ps
    return .function head ps (← stmts (inside s (bound ++ Names.declaredIn body)) .none body) close
  | .arrow head ps result => do
    let s := inside s (Names.ofParameters ps)
    return .arrow head (← parameters s ps) (← expr s result)
  | .arrowBlock head ps body close => do
    let bound := Names.ofParameters ps
    let ps ← parameters (inside s bound) ps
    return .arrowBlock head ps (← stmts (inside s (bound ++ Names.declaredIn body)) .none body) close
  | .classOf decorators name heritage ms => do
    let decorators ← exprs s decorators
    let s := { s with members := (inside s [name]).members }
    return .classOf decorators name (← expr s heritage) (← classMembers s ms)
  | .property object isOptional name => return .property (← expr s object) isOptional name
  | .element object isOptional index =>
    return .element (← expr s object) isOptional (← expr s index)
  | .call isPure callee isOptional args close =>
    return .call isPure (← expr s callee) isOptional (← arguments s args) close
  | .construct isPure callee args close =>
    return .construct isPure (← expr s callee) (← arguments s args) close
  | .chain links => return .chain (← expr s links)
  | .parens e => return .parens (← expr s e)
  | .ascribed e => return (← expr s e).bare
  | .importCall phase args close => return .importCall phase (← arguments s args) close
  | .unary operator operand => return .unary operator (← expr s operand)
  | .await operand => return .await (← expr s operand)
  | .update operator isLeading operand => return .update operator isLeading (← expr s operand)
  | .binary operator left right => return .binary operator (← expr s left) (← expr s right)
  | .assign operator target value => return .assign operator (← expr s target) (← expr s value)
  | .conditional test yes no =>
    return .conditional (← expr s test) (← expr s yes) (← expr s no)
  | .yield isDelegated operand => return .yield isDelegated (← expr s operand)
  | .spread operand => return .spread (← expr s operand)
  | .computed operand => return .computed (← expr s operand)
  | .sequence items => return .sequence (← exprs s items)
  | .markup tagPlace tag attributes children close => do
    let tag ← expr s tag
    let attributes ← members s attributes
    element s.creation tagPlace tag attributes (← arguments s children) close

def exprs (s : Scene) : List Expr → Lowering (List Expr)
  | [] => return []
  | e :: rest => return (← expr s e) :: (← exprs s rest)

def arguments (s : Scene) : List Argument → Lowering (List Argument)
  | [] => return []
  | .mk place e :: rest => return .mk place (← expr s e) :: (← arguments s rest)

def pattern (s : Scene) : Expr → Lowering Expr
  | .name name => return .name name
  | .defaulted target value => return .defaulted (← pattern s target) (← expr s value)
  | .spread operand => return .spread (← pattern s operand)
  | .arrayPattern elements => return .arrayPattern (← patterns s elements)
  | .objectPattern ms => return .objectPattern (← patternMembers s ms)
  | e => return e

def patterns (s : Scene) : List Expr → Lowering (List Expr)
  | [] => return []
  | e :: rest => return (← pattern s e) :: (← patterns s rest)

def patternMembers (s : Scene) : List Member → Lowering (List Member)
  | [] => return []
  | .property key value :: rest =>
    return .property (← expr s key) (← pattern s value) :: (← patternMembers s rest)
  | .spread operand :: rest =>
    return .spread (← pattern s operand) :: (← patternMembers s rest)
  | m :: rest => return m :: (← patternMembers s rest)

def parameters (s : Scene) : List Parameter → Lowering (List Parameter)
  | [] => return []
  | .mk decorators isProperty p :: rest =>
    return .mk (← exprs s decorators) isProperty (← pattern s p) :: (← parameters s rest)

def members (s : Scene) : List Member → Lowering (List Member)
  | [] => return []
  | .property key value :: rest =>
    return .property (← expr s key) (← expr s value) :: (← members s rest)
  | .shorthand name initial :: rest => do
    let m ← match nameIn s name with
      | .name _ => do pure (Member.shorthand name (← expr s initial))
      | e => pure (.property (.label name) e)
    return m :: (← members s rest)
  | .method kind key f :: rest =>
    return .method kind (← expr s key) (← expr s f) :: (← members s rest)
  | .spread operand :: rest => return .spread (← expr s operand) :: (← members s rest)

def classMembers (s : Scene) : List ClassMember → Lowering (List ClassMember)
  | [] => return []
  | .named place decorators head key value :: rest => do
    if isTypeOnly head value then return ← classMembers s rest
    let decorators ← exprs s decorators
    let key ← expr s key
    let value ← expr s value
    return .named place decorators head key (keeping value) :: (← classMembers s rest)
  | .staticBlock place body :: rest => do
    let body ← stmts (inside s (Names.declaredIn body)) .none body
    return .staticBlock place body :: (← classMembers s rest)

def stmts (s : Scene) (before : Earlier) : List Stmt → Lowering (List Stmt)
  | [] => return []
  | x :: rest => do
    let found? ← stmt s before x
    return found?.toList ++ (← stmts s (before.add x) rest)

def stmt (s : Scene) (before : Earlier) : Stmt → Lowering (Option Stmt)
  | .mk place f => return (← form s before f).map (.mk place)

def part (s : Scene) : Stmt → Lowering Stmt
  | .mk place f => return ((← form { s with isOutermost := false } .none f).map (.mk place)).getD hole

def form (s : Scene) (before : Earlier) : Form → Lowering (Option Form)
  | .empty => return some .empty
  | .expression e => return some (.expression (← expr s e))
  | .directive text => return some (.directive text)
  | .bindings kind found => return some (.bindings kind (← patterns s found))
  | .declaration e => if isMade e then return some (.declaration (← expr s e)) else return none
  | .block body => return some (.block (← stmts (inBlock s body) .none body))
  | .conditional test yes => return some (.conditional (← expr s test) (← part s yes))
  | .alternative test yes (.mk place no) => do
    let test ← expr s test
    let yes ← part s yes
    match ← form { s with isOutermost := false } .none no with
    | some f => return some (.alternative test yes (.mk place f))
    | none => return some (.conditional test yes)
  | .loop start test step body => do
    let start := (← form s .none start).getD .empty
    return some (.loop start (← expr s test) (← expr s step) (← part s body))
  | .traversal keyword isAwaited target source body => do
    let target := (← form s .none target).getD .empty
    return some (.traversal keyword isAwaited target (← expr s source) (← part s body))
  | .whileLoop test body => return some (.whileLoop (← expr s test) (← part s body))
  | .doLoop body test => do
    let body ← part s body
    return some (.doLoop body (← expr s test))
  | .withObject object body => return some (.withObject (← expr s object) (← part s body))
  | .jump keyword operand => return some (.jump keyword (← expr s operand))
  | .labeled label body => return some (.labeled label (← part s body))
  | .switch subject cs => return some (.switch (← expr s subject) (← cases s cs))
  | .guarded body hs => do
    let body ← stmts (inBlock s body) .none body
    return some (.guarded body (← handlers s hs))
  | .importBare r => return some (.importBare r)
  | .importNames isType phase clause r => return some (.importNames isType phase clause r)
  | .exportAll isType alias? r => return some (.exportAll isType alias? r)
  | .exportNames isType names r? => return some (.exportNames isType names r?)
  | .exportDefault e =>
    if isMade e then return some (.exportDefault (undeclared e (← expr s e))) else return none
  | .exported (.enumeration name ms close) => do
    let valued ← enumerators s name (known (← get) name) none ms
    let holder := holderOf s before true name
    return some (exportedForm (← enumeration name holder ms valued close))
  | .exported f => return (← form s before f).map .exported
  | .typeNamed _ => return none
  | .ambient _ => return none
  | .enumeration name ms close => do
    let valued ← enumerators s name (known (← get) name) none ms
    return some (← enumeration name (holderOf s before false name) ms valued close)
  | .space .. => return none
  | .partImport isType name value =>
    if isType then return none
    else return some (.bindings "var" [.defaulted (.name name) (← expr s value)])
  | .required isType _ => if isType then return none else failure
  | .nothing => return none
where
  /-- What is known of the members that an enumeration has so far. -/
  known (l : Lowered) (name : String) : Constant.Members :=
    (l.enumerations.lookup name).getD []
  /-- Notes the members of an enumeration, and makes its object. -/
  enumeration (name : String) (holder : Enumeration.Holder) (ms : List Enumerator)
      (valued : Constant.Members × List Enumeration.Valued) (close : Place) : Lowering Form := do
    modify fun l => { l with enumerations := (name, valued.1) :: l.enumerations }
    let isPure := !ms.any Enumeration.hasEffect
    return Enumeration.form name holder (Enumeration.filled name holder isPure valued.2 close)

/-- The members of an enumeration with their values, and what is known of all members then. -/
def enumerators (s : Scene) (enum : String) (known : Constant.Members)
    (before : Option Enumeration.Valued) :
    List Enumerator → Lowering (Constant.Members × List Enumeration.Valued)
  | [] => return (known, [])
  | .mk place name .absent :: rest => do
    let (value, constant?) ← StateT.lift (Enumeration.successor? enum before)
    let m : Enumeration.Valued := ⟨place, name, value, constant?⟩
    let (known, found) ← enumerators s enum ((name.toText, constant?) :: known) (some m) rest
    return (known, m :: found)
  | .mk place name initial :: rest => do
    let constant? := Constant.ofExpr? known (← get).enumerations initial
    let known := (name.toText, constant?) :: known
    let s' := { s with
      members := known.map (fun (name, _) => (name, enum)) ++ s.members, isOutermost := false }
    let value ← match constant? with
      | some c => pure c.toExpr
      | none => expr s' initial
    let m : Enumeration.Valued := ⟨place, name, value, constant?⟩
    let (known, found) ← enumerators s enum known (some m) rest
    return (known, m :: found)

def cases (s : Scene) : List Case → Lowering (List Case)
  | [] => return []
  | .mk test body :: rest => do
    let test ← expr s test
    let body ← stmts { s with isOutermost := false } .none body
    return .mk test body :: (← cases s rest)

def handlers (s : Scene) : List Handler → Lowering (List Handler)
  | [] => return []
  | .onError p body :: rest => do
    let s' := inside s (Names.ofPattern p)
    let p ← pattern s' p
    return .onError p (← stmts (inBlock s' body) .none body) :: (← handlers s rest)
  | .always body :: rest => return .always (← stmts (inBlock s body) .none body) :: (← handlers s rest)

end

/-! ### Namespaces -/

/-- The statements that a namespace becomes, unless there is nothing to be done in it. -/
def spaceOf (before : Earlier) (place : Place) (name inner : String) (parent? : Option String)
    (isExported : Bool) (body : List Stmt) : List Stmt :=
  if body.all isDirective then []
  else
    let made := Namespace.call place name inner parent? body
    if before.values.contains name then [made]
    else [Namespace.declaration name isExported, made]

def declaredAndExported (place : Place) (inner : String) (f? : Option Form) : List Stmt :=
  match f? with
  | none => []
  | some f => .mk place f :: (Names.declaredBy f).map (Namespace.exportOf inner)

mutual

def item (s : Scene) (before : Earlier) : Stmt → Lowering (List Stmt)
  | .mk place (.space name body) => do
    let inner ← freshName name
    let body ← innerItems (inside s []) inner .none body
    return spaceOf before place name inner none false body
  | .mk _ (.exported (.space name body)) => do
    let inner ← freshName name
    let body ← innerItems (inside s []) inner .none body
    return spaceOf before 0 name inner none true body
  | x => return (← stmt s before x).toList

def innerItem (s : Scene) (inner : String) (before : Earlier) : Stmt → Lowering (List Stmt)
  | .mk place (.space name body) => do
    let own ← freshName name
    let body ← innerItems s own .none body
    return spaceOf before place name own none false body
  | .mk _ (.exported (.space name body)) => do
    let own ← freshName name
    let body ← innerItems s own .none body
    return spaceOf before 0 name own (some inner) false body
  | .mk place (.exported (.bindings kind found)) => do
    guard (kind = "const")
    return Namespace.exportedVariables place inner kind (← patterns s found)
  | .mk place (.exported (.declaration e)) =>
    return declaredAndExported place inner (← form s before (.declaration e))
  | .mk place (.exported (.enumeration name ms close)) =>  do
    let f? ← form s before (.enumeration name ms close)
    return f?.toList.map (.mk place) ++ [Namespace.exportOf inner name]
  | .mk _ (.exported _) => return []
  | x => return (← stmt s before x).toList

def innerItems (s : Scene) (inner : String) (before : Earlier) : List Stmt → Lowering (List Stmt)
  | [] => return []
  | x :: rest => do
    let found ← innerItem s inner before x
    return found ++ (← innerItems s inner (before.add x) rest)

end

end Lowering
end SiteCompiler.Script
