import SiteCompiler.Script.Functions
import SiteCompiler.Script.Names

namespace SiteCompiler.Script.Types

open Reader Grammar

def startingMarks : List String :=
  ["\x7b", "[", "<", "|", "&", "(", "*", "?", "!", "...", "-"]

def startingWords : List String :=
  ["void", "null", "this", "typeof", "true", "false", "new", "import"]

def startsType (t : Token) : Bool :=
  match t with
  | .string .. => true
  | .number _ => true
  | .template .. => true
  | .word text => isName t || startingWords.contains text
  | .punctuation mark => startingMarks.contains mark
  | _ => isName t

def isNumber (t : Token) : Bool :=
  t matches .number _

variable (g : Grammar)

/-! ### Names and applications -/

def applied : Reader Unit := do
  if !(← afterBreak) && (← atOpenAngle) then g.typeArguments

def pathPart : Reader Unit := do
  match ← token with
  | .privateName _ => advance
  | _ => discard anyWord

def pathRest : Reader Unit := do
  repeatWhile do
    if ← accept "." then do pathPart; return true else return false
  applied g

def named : Reader Unit := do
  if !(← acceptWord "const") then discard identifier
  pathRest g

def imported : Reader Unit := do
  expectWord "import"
  expect "("
  g.type
  if ← accept "," then
    if !(← at? ")") then
      discard g.operand
      discard (accept ",")
  expect ")"
  pathRest g

def queried : Reader Unit := do
  expectWord "typeof"
  if ← atWord? "import" then imported g
  else
    if !(← acceptWord "this") then discard identifier
    pathRest g

/-! ### Members -/

def memberEnd : Reader Unit := do
  if !(← accept ",") then endOfStatement

def signature : Reader Unit := do
  g.typeParameters
  discard <| within ({ · with allowsAwait := false, allowsYield := false })
    (g.parameters ⟨true, false⟩)
  g.resultMark

def mention : Expr → Reader Unit
  | .computed e => modify fun r => { r with mentioned := Names.ofExpr e ++ r.mentioned }
  | _ => pure ()

def indexBehind : Reader Bool := do
  if (← at? "]") || (← at? "...") then return true
  if !isName (← token) then return false
  advance
  if isName (← token) then return true
  if ← accept "?" then return ← atAny? [":", ",", "]"]
  atAny? [":", ","]

/-- Whether a member without a name of its own starts here, which tells the type of others. -/
def indexAhead : Reader Bool :=
  holdsAhead do expect "["; indexBehind

def indexSignature : Reader Unit := do
  expect "["
  discard <| listUpTo "]" do
    discard identifier
    discard (accept "?")
    g.typeMark
  g.typeMark
  memberEnd

def namedMember : Reader Unit := do
  let key ← g.propertyKey
  discard (accept "?")
  if (← at? "(") || (← at? "<") then
    mention key
    signature g
  else g.typeMark
  memberEnd

def followsModifier (t : Token) : Bool :=
  match t with
  | .word _ => true
  | .escapedWord _ => true
  | .string .. => true
  | .number _ => true
  | .privateName _ => true
  | .punctuation mark => mark = "["
  | _ => false

def accessorSignature : Reader Unit := do
  advance
  mention (← g.propertyKey)
  signature g
  memberEnd

def member : Reader Unit := do
  if (← at? "(") || (← at? "<") then do
    signature g
    return ← memberEnd
  let opensSignature (t : Token) : Bool := t = .punctuation "(" || t = .punctuation "<"
  if (← atWord? "new") && (← next? opensSignature) then do
    advance
    signature g
    return ← memberEnd
  if (← atWord? "readonly") && (← nextOnLine? followsModifier) then advance
  let isAccessor := (← atWord? "get") || (← atWord? "set")
  if isAccessor && (← next? followsModifier) then return ← accessorSignature g
  if ← indexAhead then indexSignature g else namedMember g

def members : Reader Unit := do
  expect "\x7b"
  discard (upTo "\x7d" (member g))

/-! ### Mapped types and tuples -/

def mappedAhead : Reader Bool :=
  holdsAhead do
    expect "\x7b"
    if ← atAny? ["+", "-"] then do
      advance
      return ← atWord? "readonly"
    discard (acceptWord "readonly")
    expect "["
    discard identifier
    atWord? "in"

def changed (item : Reader Bool) : Reader Unit := do
  if ← atAny? ["+", "-"] then do advance; require (← item) else discard item

def mapped : Reader Unit := do
  expect "\x7b"
  changed (acceptWord "readonly")
  expect "["
  discard identifier
  expectWord "in"
  g.type
  if ← acceptWord "as" then g.type
  expect "]"
  changed (accept "?")
  g.typeMark
  discard (accept ";")
  expect "\x7d"

def elementNameAhead : Reader Bool :=
  holdsAhead do
    discard (accept "...")
    discard anyWord
    discard (accept "?")
    at? ":"

def tupleElement : Reader Unit := do
  if ← elementNameAhead then
    discard (accept "...")
    discard anyWord
    discard (accept "?")
    expect ":"
    discard (accept "...")
    g.type
  else
    discard (accept "...")
    g.type

/-! ### Types without operators -/

def substitutions (isLast : Bool) : Reader Unit := do
  discard <| iterate (fun isLast => do
    if isLast then return none
    g.type
    require (← at? "\x7d")
    match ← reread Token.readTemplate? with
    | .template _ isLast => do advance; return some isLast
    | _ => failure) isLast

def assertion : Reader Unit := do
  expectWord "asserts"
  if !(← acceptWord "this") then discard identifier
  if ← acceptWord "is" then g.type

def isReceiver (t : Token) : Bool :=
  isName t || t = .word "this"

def wordType (text : String) : Reader Unit := do
  if text = "typeof" then queried g
  else if text = "import" then imported g
  else if text = "this" then
    advance
    if (← atWord? "is") && !(← afterBreak) then g.announcedType
  else if ["void", "null", "true", "false"].contains text then advance
  else if text = "asserts" && (← nextOnLine? isReceiver) then assertion g
  else named g

def simple : Reader Unit := do
  match ← token with
  | .word text => wordType g text
  | .escapedWord _ => named g
  | .string .. => advance
  | .number _ => advance
  | .template _ isLast => do advance; substitutions g isLast
  | .punctuation "-" => do
    advance
    require (isNumber (← token))
    advance
  | .punctuation "(" => do
    advance
    within ({ · with allowsConditionalType := true }) g.type
    expect ")"
  | .punctuation "[" => do
    advance
    discard (listUpTo "]" (tupleElement g))
  | .punctuation "\x7b" => do
    if ← mappedAhead then mapped g else members g
  | .punctuation "?" => do advance; g.type
  | .punctuation "!" => do advance; g.type
  | _ => failure

def trailing : Reader Bool := do
  if ← afterBreak then return false
  if ← accept "[" then
    if !(← at? "]") then g.type
    expect "]"
    return true
  if ← accept "!" then return true
  if (← at? "?") && !(← next? startsType) then do advance; return true
  return false

/-! ### Operators -/

def operatorWords : List String := ["keyof", "unique", "readonly"]

/-- The condition on a type that is found out, unless it belongs to a choice around it. -/
def constraint : Reader Unit := do
  if ← atWord? "extends" then
    let allows := (← surroundings).allowsConditionalType
    discard <| attempt? do
      advance
      within ({ · with allowsConditionalType := false }) g.type
      require (!allows || !(← at? "?"))

/-- A type with the words that may stand before it and the brackets that may follow. -/
def operated : Reader Unit := do
  repeatWhile do
    match ← token with
    | .word text => if operatorWords.contains text then do advance; return true else return false
    | _ => return false
  if ← acceptWord "infer" then
    discard identifier
    constraint g
  else
    within ({ · with allowsConditionalType := true }) do
      simple g
      repeatWhile (trailing g)

/-- Types with an operator between them, which may also stand before the first of them. -/
def joined (mark : String) (item : Reader Unit) : Reader Unit := do
  discard (accept mark)
  item
  repeatWhile do
    if ← accept mark then do item; return true else return false

def union : Reader Unit :=
  joined "|" (joined "&" (operated g))

/-! ### Types of functions -/

/-- Whether parameters of a function start here, behind the parenthesis, and not a type in
parentheses. -/
def parametersBehind : Reader Bool := do
  if (← at? ")") || (← at? "...") then return true
  discard accessModifiers
  if isReceiver (← token) then advance
  else
    require (← atAny? ["[", "\x7b"])
    discard g.pattern
  if ← atAny? [":", ",", "?", "="] then return true
  expect ")"
  at? "=>"

def functionAhead : Reader Bool := do
  if (← at? "<") || (← atWord? "new") then return true
  if (← atWord? "abstract") && (← next? (· = .word "new")) then return true
  if ← at? "(" then return ← holdsAhead do advance; parametersBehind g
  return false

def functionType : Reader Unit := do
  discard (acceptWord "abstract")
  discard (acceptWord "new")
  g.typeParameters
  discard (g.parameters ⟨true, false⟩)
  expect "=>"
  g.resultType

def rule : Reader Unit := do
  if ← functionAhead g then return ← functionType g
  union g
  let allowsCondition := (← surroundings).allowsConditionalType && !(← afterBreak)
  if ← acceptWordIf allowsCondition "extends" then
    within ({ · with allowsConditionalType := false }) g.type
    expect "?"
    g.type
    expect ":"
    g.type

end SiteCompiler.Script.Types
