import SiteCompiler.Script.Functions
import SiteCompiler.Script.Types

namespace SiteCompiler.Script.Grammar

open Reader

/-! ### Modifiers -/

def followsModifier (t : Token) : Bool :=
  Types.followsModifier t || t = .punctuation "\x7b" || t = .punctuation "*"
    || t = .punctuation "..."

def modifierAhead (word : String) : Reader Bool :=
  if word = "static" then next? followsModifier else nextOnLine? followsModifier

def staticBlockAhead : Reader Bool := do
  return (← atWord? "static") && (← next? fun t => t = .punctuation "\x7b")

def modifiers (words : List String) : Reader (List String) :=
  iterate (fun found => do
    match ← token with
    | .word text =>
      let isRepeated := text = "static" && found.contains text
      if words.contains text && !isRepeated && !(← staticBlockAhead) && (← modifierAhead text) then
        advance
        return some (found ++ [text])
      return none
    | _ => return none) []

def accessKind? : Reader (Option MemberKind) := do
  if (← atWord? "get") && (← next? Types.followsModifier) then
    advance
    return some .getter
  if (← atWord? "set") && (← next? Types.followsModifier) then
    advance
    return some .setter
  return none

/-- A method that reads a property takes nothing, and one that writes it takes one value. -/
def suits (kind : MemberKind) : Expr → Bool
  | .function _ parameters _ _ =>
    match kind with
    | .getter => parameters.isEmpty
    | .setter => parameters.length = 1 && !parameters.any isRest
    | _ => true
  | _ => true

variable (g : Grammar)

/-! ### Objects -/

def methodAhead : Reader Bool :=
  atAny? ["(", "<"]

def objectMethod (kind : MemberKind) (key : Expr) (isAsync isGenerator : Bool) : Reader Member := do
  let f ← g.functionRest .plain ⟨isAsync, isGenerator, false, false, "", true⟩
  require (isWhole f && suits kind f)
  return .method kind key f

/-- The default of a name in an object, which makes sense in a pattern only. -/
def pendingDefault : Reader Expr := do
  let initial ← g.initializer
  if !initial.isAbsent then modify fun r => { r with pending := r.pending + 1 }
  return initial

def shorthand (key : Expr) : Reader Member := do
  match key with
  | .label name => do
    require (allowsName (← surroundings) name)
    return .shorthand name (← g.pendingDefault)
  | _ => failure

def objectMember : Reader Member := do
  if ← accept "..." then return .spread (← g.operand)
  let isAsync := !(← modifiers ["async"]).isEmpty
  if let some kind ← accessKind? then
    require !isAsync
    return ← g.objectMethod kind (← g.propertyKey) false false
  let isGenerator ← accept "*"
  let isNamed := isName (← token)
  let key ← g.propertyKey
  if isGenerator || (← methodAhead) then return ← g.objectMethod .method key isAsync isGenerator
  require !isAsync
  if isNamed && !(← at? ":") then return ← g.shorthand key
  expect ":"
  return .property key (← g.operand)

def object : Reader Expr := do
  let start ← place
  expect "\x7b"
  let found ← bracketed (commaListUpTo "\x7d" g.objectMember)
  return .object start (found.map (·.1)) (endsInComma found)

/-! ### Members of classes -/

def typeModifiers : List String :=
  ["public", "private", "protected", "readonly", "override", "abstract", "declare"]

def classModifiers : List String := ["static", "async", "accessor"]

def rank? (word : String) : Option Nat :=
  match word with
  | "public" | "private" | "protected" => some 0
  | "static" | "abstract" => some 1
  | "override" => some 2
  | "readonly" | "accessor" | "async" => some 3
  | _ => none

def areInOrder (words : List String) : Bool :=
  let ranks := words.filterMap rank?
  (ranks.zip (ranks.drop 1)).all (fun (a, b) => a ≤ b) && ranks.count 0 ≤ 1
    && words.eraseDups.length = words.length

def isPrivate : Expr → Bool
  | .label name => Text.startsWith name "#"
  | _ => false

def isCalled (name : String) : Expr → Bool
  | .label text => text = name
  | .string value => value = Points.ofString name
  | _ => false

def memberKey : Reader Expr := do
  match ← token with
  | .privateName text => do
    require (text ≠ "#constructor")
    advance
    return .label text
  | _ => g.propertyKey

def headOf (words : List String) (kind : MemberKind) : MemberHead :=
  ⟨words.contains "static", words.contains "abstract" || words.contains "declare", kind⟩

def methodKind? (words : List String) (key : Expr) (kind : MemberKind) (isGenerator : Bool) :
    Option MemberKind :=
  if words.contains "static" then if isCalled "prototype" key then none else some kind
  else if isCalled "constructor" key then
    if kind = .method && !isGenerator && !words.contains "async" then some .constructor else none
  else some kind

def classMethod (words : List String) (kind : MemberKind) (key : Expr) (isGenerator : Bool) :
    Reader (MemberHead × Expr) := do
  let kind ← ofOption (methodKind? words key kind isGenerator)
  require !(words.contains "accessor")
  let head := ⟨words.contains "async", isGenerator, false, false, "", true⟩
  let f ← g.declaredRest ⟨kind = .constructor, true⟩ head
  require (suits kind f)
  return (headOf words kind, f)

/-- The value of a field, which no generator or asynchronous function is around. -/
def fieldValue : Reader Expr :=
  within ({ · with allowsIn := true, allowsYield := false, allowsAwait := false }) g.initializer

def field (words : List String) (key : Expr) : Reader (MemberHead × Expr) := do
  require (!isCalled "constructor" key && !words.contains "async")
  require !(words.contains "static" && isCalled "prototype" key)
  if ← hasTypes then discard (accept "!")
  g.typeMark
  let value ← g.fieldValue
  endOfStatement
  return (headOf words (if words.contains "accessor" then .accessor else .field), value)

def namedMember (words : List String) : Reader (Expr × MemberHead × Expr) := do
  if let some kind ← accessKind? then
    require !(words.contains "async")
    let key ← g.memberKey
    return (key, ← g.classMethod words kind key false)
  let isGenerator ← accept "*"
  let key ← g.memberKey
  let isAccessible := words.any fun w => rank? w = some 0
  require !(isPrivate key && isAccessible)
  if ← hasTypes then discard (accept "?")
  if isGenerator || (← methodAhead) then return (key, ← g.classMethod words .method key isGenerator)
  return (key, ← g.field words key)

def staticBlock (start : Place) : Reader ClassMember := do
  expectWord "static"
  let inside (s : Surroundings) : Surroundings :=
    { s with allowsIn := true, allowsYield := false, allowsAwait := true, allowsReturn := false }
  return .staticBlock start (← within inside g.block)

def classMember : Reader (Option ClassMember) := do
  let start ← place
  let found ← g.decorators
  if ← staticBlockAhead then
    require found.isEmpty
    return some (← g.staticBlock start)
  let words ← modifiers (if ← hasTypes then classModifiers ++ typeModifiers else classModifiers)
  require (areInOrder words)
  if (← hasTypes) && (← Types.indexAhead) then
    require (words.all fun w => w = "static" || w = "readonly")
    Types.indexSignature g
    return none
  let (key, head, value) ← g.namedMember words
  return some (.named start found head key value)

def classMembers : Reader (List ClassMember) := do
  let found ← many do
    if ← accept "\x7d" then return none
    else if ← accept ";" then return some none
    else return some (← g.classMember)
  return found.filterMap id

/-! ### Classes -/

def className : Reader String := do
  if isName (← token) && !(← atWord? "implements") then identifier else return ""

def heritage : Reader Expr := do
  if !(← acceptWord "extends") then return .absent
  let parent ← g.chain
  if (← hasTypes) && (← atOpenAngle) then g.typeArguments
  return parent

def classFrom (found : List Expr) : Reader Expr := do
  expectWord "class"
  let name ← className
  g.typeParameters
  let parent ← g.heritage
  if ← acceptWordIf (← hasTypes) "implements" then discard (separated g.type)
  expect "\x7b"
  let plain (s : Surroundings) : Surroundings := { s with allowsIn := true, inDecorator := false }
  return .classOf found name parent (← within plain g.classMembers)

def classExpression : Reader Expr := do
  g.classFrom (← g.decorators)

end SiteCompiler.Script.Grammar
