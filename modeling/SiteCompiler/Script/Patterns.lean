import SiteCompiler.Script.Grammar

namespace SiteCompiler.Script.Grammar

open Reader

def withDefault (target value : Expr) : Expr :=
  match value with
  | .absent => target
  | value => .defaulted target value

def isSpread : Expr → Bool
  | .spread _ => true
  | _ => false

def isSpreadMember : Member → Bool
  | .spread _ => true
  | _ => false

section Binding

variable (g : Grammar)

def default : Reader Expr :=
  within ({ · with allowsIn := true }) g.initializer

def elementWithDefault : Reader Expr := do
  let target ← g.pattern
  if ← hasTypes then discard (accept "?")
  g.typeMark
  return withDefault target (← g.default)

def restElement : Reader Expr := do
  expect "..."
  let target ← g.pattern
  g.typeMark
  require !(← at? "=")
  return .spread target

def patternElement : Reader Expr := do
  if ← at? "..." then g.restElement else g.elementWithDefault

def patternMember : Reader Member := do
  if ← at? "..." then
    match ← g.restElement with
    | .spread (.name name) => return .spread (.name name)
    | _ => failure
  let isNamed := isName (← token)
  let key ← g.propertyKey
  match isNamed && !(← at? ":"), key with
  | true, .label name => do
    require (allowsName (← surroundings) name)
    return .property key (withDefault (.name name) (← g.default))
  | true, _ => failure
  | false, _ => do
    expect ":"
    return .property key (← g.elementWithDefault)

def patternRule : Reader Expr := do
  if ← accept "[" then
    return .arrayPattern (← withRest isSpread (← elements g.patternElement))
  if ← accept "\x7b" then
    return .objectPattern (← withRest isSpreadMember (← commaListUpTo "\x7d" g.patternMember))
  return .name (← identifier)

end Binding

/-! ### Targets of assignments -/

def isReference : Expr → Bool
  | .name _ => true
  | .property .. => true
  | .element .. => true
  | _ => false

/-- The target that an expression spells, if it is no pattern. Types may be said of variables and
properties only. -/
def toReference? : Expr → Option Expr
  | .parens e =>
    match e with
    | .array .. => none
    | .object .. => none
    | e => toReference? e
  | .ascribed e => if isReference e.bare then some (.ascribed e) else none
  | e => if isReference e then some e else none

def isAssignment : Expr → Bool
  | .assign .. => true
  | _ => false

mutual

/-- The target that an expression spells; the state counts the names with defaults in objects. -/
def toTarget : Expr → StateT Nat Option Expr
  | .array elements hasComma => do
    guard (restIsLast isSpread elements hasComma)
    return .arrayTarget (← toElements elements)
  | .object _ members hasComma => do
    guard (restIsLast isSpreadMember members hasComma)
    return .objectTarget (← toMembers members)
  | .assign "=" target value => return .defaulted target value
  | e => StateT.lift (toReference? e)

def toElements : List Expr → StateT Nat Option (List Expr)
  | [] => return []
  | .absent :: rest => return .absent :: (← toElements rest)
  | .spread e :: rest => do
    guard (!isAssignment e)
    return .spread (← toTarget e) :: (← toElements rest)
  | e :: rest => return (← toTarget e) :: (← toElements rest)

def toMembers : List Member → StateT Nat Option (List Member)
  | [] => return []
  | .property key value :: rest => return .property key (← toTarget value) :: (← toMembers rest)
  | .shorthand name initial :: rest => do
    if !initial.isAbsent then modify (· + 1)
    return .shorthand name initial :: (← toMembers rest)
  | .spread e :: rest => do
    let target ← StateT.lift (toReference? e)
    return .spread target :: (← toMembers rest)
  | .method .. :: _ => failure

end

def asTarget (e : Expr) : Reader Expr := do
  require !(isAssignment e)
  let (target, resolved) ← ofOption (toTarget e |>.run 0)
  modify fun r => { r with pending := r.pending - resolved }
  return target

def asReference (e : Expr) : Reader Expr :=
  ofOption (toReference? e)

end SiteCompiler.Script.Grammar
