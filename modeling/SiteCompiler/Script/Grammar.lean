import SiteCompiler.Script.Numeral
import SiteCompiler.Script.Reader

namespace SiteCompiler.Script

structure Grammar where
  /-- An expression without commas, told whether an arrow function may tell the type of its result
  here. -/
  value : Bool → Reader Expr
  /-- A chain of properties and calls. -/
  chain : Reader Expr
  /-- What a declaration binds, without its default. -/
  pattern : Reader Expr
  /-- An element expression up to its last angle bracket, which is the current token after it. -/
  element : Reader Expr
  /-- A statement, told whether it is one of a list. -/
  statement : Bool → Reader Stmt
  type : Reader Unit

namespace Grammar

open Reader

def empty : Grammar :=
  ⟨fun _ => failure, failure, failure, failure, fun _ => failure, failure⟩

def reservedWords : List String :=
  ["break", "case", "catch", "class", "const", "continue", "debugger", "default", "delete", "do",
    "else", "enum", "export", "extends", "false", "finally", "for", "function", "if", "import",
    "in", "instanceof", "new", "null", "return", "super", "switch", "this", "throw", "true", "try",
    "typeof", "var", "void", "while", "with"]

def isName (t : Token) : Bool :=
  ((wordText? t).map (!reservedWords.contains ·)).getD false

def allowsName (s : Surroundings) (name : String) : Bool :=
  !(name = "await" && s.allowsAwait) && !(name = "yield" && s.allowsYield)

def identifier : Reader String := do
  require (isName (← token))
  let name ← anyWord
  require (allowsName (← surroundings) name)
  return name

variable (g : Grammar)

def operand : Reader Expr :=
  g.value true

def expression : Reader Expr := do
  let items ← within ({ · with inDecorator := false }) (separated g.operand)
  match items with
  | [e] => return e
  | items => return .sequence items

def initializer : Reader Expr := do
  if ← accept "=" then g.operand else return .absent

def propertyKey : Reader Expr := do
  match ← token with
  | .string _ value => do advance; return .string value
  | .number text => do advance; return .number (Numeral.shortest text)
  | .punctuation "[" => do
    advance
    let e ← within ({ · with allowsIn := true }) g.operand
    expect "]"
    return .computed e
  | _ => return .label (← anyWord)

/-! ### Marks of types -/

def announcedType : Reader Unit := do
  advance
  g.type

def typeMark : Reader Unit := do
  if (← hasTypes) && (← at? ":") then g.announcedType

def typeClaim : Reader Unit := do
  discard identifier
  require ((← atWord? "is") && !(← afterBreak))
  g.announcedType

def resultType : Reader Unit := do
  if (← attempt? g.typeClaim).isNone then g.type

def resultMark : Reader Unit := do
  if (← hasTypes) && (← at? ":") then do advance; g.resultType

def varianceWords : List String := ["const", "in", "out"]

def typeParameter : Reader Unit := do
  repeatWhile do
    match ← token with
    | .word text =>
      if varianceWords.contains text && (← next? fun t => isName t || t = .word "in") then do
        advance; return true
      else return false
    | _ => return false
  discard identifier
  if ← acceptWord "extends" then g.type
  if ← accept "=" then g.type

def inAngles (item : Reader Unit) : Reader Unit := do
  openAngle
  item
  repeatWhile do
    if ← accept "," then
      if ← atCloseAngle then return false
      item
      return true
    return false
  closeAngle

def typeParameters : Reader Unit := do
  if (← hasTypes) && (← at? "<") then inAngles g.typeParameter

def typeArguments : Reader Unit :=
  inAngles g.type

/-! ### Lists of elements -/

/-- The elements of an array or of a pattern for one, each with whether a comma follows it; where one
is missing there is `absent`. -/
def elements (item : Reader Expr) : Reader (List (Expr × Bool)) :=
  many do
    if ← accept "]" then return none
    else if ← accept "," then return some (.absent, true)
    else
      let e ← item
      let hasComma ← accept ","
      if !hasComma then require (← at? "]")
      return some (e, hasComma)

def endsInComma (found : List (α × Bool)) : Bool :=
  (found.getLast?.map (·.2)).getD false

def restIsLast (isRest : α → Bool) (found : List α) (hasComma : Bool) : Bool :=
  found.dropLast.all (!isRest ·) && !(hasComma && (found.getLast?.map isRest).getD false)

def withRest (isRest : α → Bool) (found : List (α × Bool)) : Reader (List α) := do
  let items := found.map (·.1)
  require (restIsLast isRest items (endsInComma found))
  return items

end Grammar
end SiteCompiler.Script
