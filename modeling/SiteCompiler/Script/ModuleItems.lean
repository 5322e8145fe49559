import SiteCompiler.Script.Declarations

namespace SiteCompiler.Script.Grammar

open Reader

/-! ### Requests -/

def portName : Reader PortName := do
  match ← token with
  | .string _ value => do advance; return .text value
  | _ => return .word (← anyWord)

def requestAttribute : Reader Attribute := do
  let key ← portName
  expect ":"
  return ⟨key, ← stringLiteral⟩

/-- The attributes of a request behind their keyword, none of which comes twice. -/
def attributes? : Reader (Option (String × List Attribute)) := do
  let isAssertion := (← atWord? "assert") && !(← afterBreak)
  if !(isAssertion || (← atWord? "with")) then return none
  let keyword ← anyWord
  expect "\x7b"
  let found ← listUpTo "\x7d" requestAttribute
  let keys := found.map (·.key.points)
  require (keys.eraseDups.length = keys.length)
  return some (keyword, found)

def request : Reader Request := do
  let specifier ← stringLiteral
  return ⟨specifier, ← attributes?⟩

/-! ### Names in braces -/

/-- Whether a name in braces is marked as that of a type: the word is the mark unless it is the name
itself. -/
def typeNameAhead : Reader Bool := do
  if !(← hasTypes) || !(← atWord? "type") then return false
  let isPort (t : Token) : Bool := isAnyWord t || t matches .string ..
  let endsItem (t : Token) : Bool := t = .punctuation "," || t = .punctuation "\x7d"
  match ← ahead? (do advance; token) with
  | some (.word "as") =>
    -- `type as`, `type as as x` and `type as, …` name a type, `type as x` renames what `type` names
    let second ← ahead? (do advance; advance; token)
    let third ← ahead? (do advance; advance; advance; token)
    match second, third with
    | some (.word "as"), some t => return isPort t
    | some t, _ => return endsItem t
    | none, _ => return false
  | some t => return isPort t
  | none => return false

def exportItem : Reader ExportName := do
  let isType ← typeNameAhead
  if isType then advance
  let start ← place
  let inner ← portName
  let outer ← if ← acceptWord "as" then portName else pure inner
  return ⟨isType, start, inner, outer⟩

def importItem : Reader ImportName := do
  let item ← exportItem
  match item.outer with
  | .word inner => do
    require (isName (.word inner) && allowsName (← surroundings) inner)
    return ⟨item.isType, item.inner, inner⟩
  | .text _ => failure

def inBraces (item : Reader α) : Reader (List α) := do
  expect "\x7b"
  listUpTo "\x7d" item

/-! ### Imports -/

def importClause : Reader ImportClause := do
  let default? ← if isName (← token) then do pure (some (← identifier)) else pure none
  if default?.isSome then
    if !(← accept ",") then return ⟨default?, none, none⟩
  if ← accept "*" then
    expectWord "as"
    return ⟨default?, some (← identifier), none⟩
  return ⟨default?, none, some (← inBraces importItem)⟩

/-- Whether the word at which an import stands is a mark and not the name that it binds. -/
def markAhead (mark : String) (condition : Token → Bool) : Reader Bool := do
  if !(← atWord? mark) then return false
  match ← ahead? (do advance; token) with
  | some (.word "from") =>
    -- `import type from from "…"` marks the name `from`
    let next ← ahead? (do advance; advance; token)
    return next = some (.word "from") || next = some (.punctuation "=")
  | some t => return condition t
  | none => return false

def importPhase : Reader String := do
  if ← markAhead "defer" (· = .punctuation "*") then do advance; return "defer"
  if ← markAhead "source" isName then do advance; return "source"
  return ""

/-- Whether an import of types only names one thing, or several that are not marked again. -/
def isUniform (clause : ImportClause) : Bool :=
  let names := clause.names?.getD []
  !(clause.default?.isSome && (clause.names?.isSome || clause.everything?.isSome))
    && names.all (!·.isType)

def partImportAhead : Reader Bool := do
  return (← hasTypes) && isName (← token) && (← next? (· = .punctuation "="))

def spacePath : Reader Expr := do
  let first ← identifier
  let parts ← many do
    if ← accept "." then return some (← anyWord) else return none
  return parts.foldl (fun e name => .property e false name) (.name first)

def partImport (isType : Bool) : Reader Form := do
  let name ← identifier
  expect "="
  if (← atWord? "require") && (← next? (· = .punctuation "(")) then
    advance
    advance
    discard stringLiteral
    expect ")"
    endOfStatement
    return .required isType name
  let value ← spacePath
  endOfStatement
  return .partImport isType name value

def importDeclaration : Reader Form := do
  expectWord "import"
  match ← token with
  | .string .. => do
    let r ← request
    endOfStatement
    return .importBare r
  | _ => do
    let marksType ← markAhead "type" fun t =>
      isName t || t = .punctuation "*" || t = .punctuation "\x7b"
    let isType := (← hasTypes) && marksType
    if isType then advance
    if ← partImportAhead then return ← partImport isType
    let phase ← if isType then pure "" else importPhase
    let clause ← importClause
    require (!isType || isUniform clause)
    expectWord "from"
    let r ← request
    endOfStatement
    return .importNames isType phase clause r

/-! ### Exports -/

def exportAll (isType : Bool) : Reader Form := do
  expect "*"
  let alias? ← if ← acceptWord "as" then do pure (some (← portName)) else pure none
  expectWord "from"
  let r ← request
  endOfStatement
  return .exportAll isType alias? r

def moduleReservedWords : List String :=
  ["await", "implements", "interface", "package", "private", "protected", "public", "static",
    "yield"]

def namesVariable (n : ExportName) : Bool :=
  match n.inner with
  | .word name => isName (.word name) && !moduleReservedWords.contains name
  | .text _ => false

def exportList (isType : Bool) : Reader Form := do
  let items ← inBraces exportItem
  require (!isType || items.all (!·.isType))
  let request? ← if ← acceptWord "from" then do pure (some (← request)) else pure none
  endOfStatement
  require (request?.isSome || items.all namesVariable)
  return .exportNames isType items request?

variable (g : Grammar)

def interfaceAhead : Reader Bool := do
  return (← hasTypes) && (← atWord? "interface") && (← nextOnLine? isName)

def exportDefault (found : List Expr) : Reader Form := do
  let found := found ++ (← g.decorators)
  if ← classAhead then
    match ← g.classDeclaration found false with
    | .declaration e => return .exportDefault e
    | _ => failure
  require found.isEmpty
  if ← functionAhead then
    match ← g.functionDeclaration false with
    | .declaration e => return .exportDefault e
    | _ => failure
  if ← interfaceAhead then return .exported (← g.interface)
  let e ← g.operand
  endOfStatement
  return .exportDefault e

def importedPart : Reader Form := do
  advance
  let isType ← markAhead "type" isName
  if isType then advance
  partImport isType

def exportedDeclaration (found : List Expr) : Reader Form := do
  let found := found ++ (← g.decorators)
  if ← classAhead then return ← g.classDeclaration found true
  require found.isEmpty
  if ← functionAhead then return ← g.functionDeclaration true
  if ← constEnumAhead then return ← g.enumeration
  match ← token with
  | .word text =>
    if ["var", "let", "const"].contains text then g.variableStatement
    else if text = "import" then importedPart
    else do
      require (← typedDeclarationAhead)
      g.typedDeclaration
  | _ => failure

def exportDeclaration (found : List Expr) : Reader Form := do
  expectWord "export"
  if ← acceptWord "default" then return ← g.exportDefault found
  let marksType ← next? fun t => t = .punctuation "\x7b" || t = .punctuation "*"
  let isType := (← hasTypes) && (← atWord? "type") && marksType
  if isType then advance
  if (← at? "*") || (← at? "\x7b") then
    require found.isEmpty
    if ← at? "*" then return ← exportAll isType else return ← exportList isType
  if ← acceptWordIf (← hasTypes) "as" then
    expectWord "namespace"
    discard identifier
    endOfStatement
    return .exported .nothing
  return .exported (← g.exportedDeclaration found)

/-- Whether an import or an export starts here, and no operand of an expression. -/
def moduleItemAhead : Reader Bool := do
  let isOperand ← next? fun t => t = .punctuation "(" || t = .punctuation "."
  return (← atWord? "export") || (← atWord? "import") && !isOperand

def moduleItem (found : List Expr) : Reader Form := do
  if ← atWord? "import" then importDeclaration else g.exportDeclaration found

end SiteCompiler.Script.Grammar
