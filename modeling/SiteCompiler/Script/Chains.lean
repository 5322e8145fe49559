import SiteCompiler.Script.Classes

namespace SiteCompiler.Script.Grammar

open Reader

variable (g : Grammar)

/-! ### Templates -/

/-- The substitutions of a template behind a stretch of its text, and the texts behind them. -/
def templateSpans (isLast : Bool) : Reader (List (Expr × String)) := do
  let (_, found) ← iterate (fun (isLast, found) => do
    if isLast then return none
    let e ← bracketed g.expression
    require (← at? "\x7d")
    match ← reread Token.readTemplate? with
    | .template text isLast => do
      advance
      return some (isLast, found ++ [(e, text)])
    | _ => failure) (isLast, [])
  return found

def templateLiteral (isTagged : Bool) : Reader Expr := do
  match ← token with
  | .template text isLast => do
    advance
    let spans ← g.templateSpans isLast
    let texts := text :: spans.map (·.2)
    require (isTagged || texts.all fun text => (Token.cooked? text).isSome)
    return .template texts (spans.map (·.1))
  | _ => failure

/-! ### Arguments -/

def argument : Reader Argument := do
  let start ← place
  if ← accept "..." then return .mk start (.spread (← g.operand))
  return .mk start (← g.operand)

def argumentList : Reader (List Argument × Place) := do
  expect "("
  let found ← bracketed <| many do
    if ← at? ")" then return none
    let a ← g.argument
    if !(← at? ")") then expect ","
    return some a
  let close ← place
  expect ")"
  return (found, close)

/-- Whether what follows type arguments shows that they are some, and no comparison. -/
def followsTypeArguments (t : Token) : Bool :=
  match t with
  | .template .. => true
  | .finish => true
  | .punctuation text => !(["<", ">", "+", "-", "[", "\x7b", "~", "!", "++", "--", "@",
    "/="].contains text)
  | .word text =>
    reservedWords.contains text && !startingWords.contains text || text = "as"
      || text = "satisfies"
  | _ => false
where
  /-- The reserved words that expressions start with. -/
  startingWords : List String :=
    ["this", "super", "null", "true", "false", "function", "class", "new", "delete", "typeof",
      "void", "import"]

/-- Types that a function or a class is given, where nothing else can be meant. -/
def appliedTypes : Reader Unit := do
  require ((← hasTypes) && (← atOpenAngle))
  g.typeArguments
  let follows := followsTypeArguments (← token)
  let isCompared ← atAny? ["<", ">", "+", "-"]
  require (follows || (← afterBreak) && !isCompared)

/-! ### Operands -/

def parenthesized : Reader Expr := do
  expect "("
  let e ← bracketed g.expression
  expect ")"
  return .parens (markEnclosed e)

def array : Reader Expr := do
  expect "["
  let item : Reader Expr := do
    if ← accept "..." then return .spread (← g.operand) else g.operand
  let found ← bracketed (elements item)
  return .array (found.map (·.1)) (endsInComma found)

def regex : Reader Expr := do
  match ← reread Token.readRegex? with
  | .regex text => do advance; return .regex text
  | _ => failure

def keywordOperands : List String := ["this", "null", "true", "false"]

def superOperand : Reader Expr := do
  expectWord "super"
  require (← atAny? ["(", ".", "["])
  return .keyword "super"

/-- `import` as an operand: a module that is asked for, or what is known of this one. -/
def importOperand : Reader Expr := do
  expectWord "import"
  let phase ← if ← accept "." then anyWord else pure ""
  if phase = "meta" then return .keyword "import.meta"
  require (["", "defer", "source"].contains phase)
  let (found, close) ← g.argumentList
  require ((found.length = 1 || found.length = 2) && !found.any fun a => isSpread a.value)
  return .importCall phase found close

def wordOperand (text : String) : Reader Expr := do
  if ← functionAhead then return ← g.function true
  if text = "class" then return ← g.classFrom []
  if text = "super" then return ← superOperand
  if text = "import" then return ← g.importOperand
  if keywordOperands.contains text then do
    advance
    return .keyword text
  return .name (← identifier)

def primary : Reader Expr := do
  match ← token with
  | .word text => g.wordOperand text
  | .escapedWord _ => return .name (← identifier)
  | .number text => do advance; return .number (Numeral.shortest text)
  | .string _ value => do advance; return .string value
  | .template .. => g.templateLiteral false
  | .punctuation "(" => g.parenthesized
  | .punctuation "[" => g.array
  | .punctuation "\x7b" => g.object
  | .punctuation "/" => regex
  | .punctuation "/=" => regex
  | .punctuation "@" => g.classExpression
  | _ => failure

/-! ### Properties and calls -/

structure Links where
  whole : Expr
  isOptional : Bool

def propertyName : Reader String := do
  match ← token with
  | .privateName text => do advance; return text
  | _ => anyWord

def index : Reader Expr := do
  expect "["
  let e ← bracketed g.expression
  expect "]"
  return e

def startsProperty (t : Token) : Bool :=
  isAnyWord t || t matches .privateName _ || t matches .template .. || t = .punctuation "["

def optionalProperty (e : Expr) : Reader Links := do
  expect "?."
  if ← at? "[" then return ⟨.element e true (← g.index), true⟩
  return ⟨.property e true (← propertyName), true⟩

def typedLink (l : Links) : Reader (Option Links) := do
  if (← attempt? g.appliedTypes).isNone then return none
  require !(← at? ".")
  require !((← at? "?.") && (← next? startsProperty))
  return some l

def propertyStep (l : Links) : Reader (Option Links) := do
  if (← at? "?.") && (← next? startsProperty) then return some (← g.optionalProperty l.whole)
  if ← accept "." then return some ⟨.property l.whole false (← propertyName), l.isOptional⟩
  if (← at? "[") && !(← surroundings).inDecorator then
    return some ⟨.element l.whole false (← g.index), l.isOptional⟩
  match ← token with
  | .template .. => do
    require !l.isOptional
    return some ⟨.tagged l.whole (← g.templateLiteral true), false⟩
  | _ =>
    if (← hasTypes) && (← at? "!") && !(← afterBreak) then do
      advance
      return some { l with whole := .ascribed l.whole }
    if (← hasTypes) && (← atOpenAngle) then return ← g.typedLink l
    return none

def call (e : Expr) (isOptional : Bool) : Reader Expr := do
  let (found, close) ← g.argumentList
  return .call false e isOptional found close

def chainStep (l : Links) : Reader (Option Links) := do
  match ← g.propertyStep l with
  | some l => return some l
  | none =>
    if ← accept "?." then
      if (← hasTypes) && (← atOpenAngle) then g.typeArguments
      return some ⟨← g.call l.whole true, true⟩
    if ← at? "(" then return some ⟨← g.call l.whole false, l.isOptional⟩
    return none

/-- Whether a word makes objects here, and does not tell how a function was called. -/
def newAhead : Reader Bool := do
  return (← atWord? "new") && !(← next? fun t => t = .punctuation ".")

def newWords : Reader (List Unit) :=
  many do
    if ← newAhead then do advance; return some () else return none

def isImportCall : Expr → Bool
  | .importCall .. => true
  | _ => false

def constructStep (e : Expr) : Reader Expr := do
  let callee ← iterate g.propertyStep ⟨e, false⟩
  require !(callee.isOptional || isImportCall callee.whole)
  let (found, close) ← if ← at? "(" then g.argumentList else pure ([], 0)
  return .construct false callee.whole found close

def newTarget : Reader Expr := do
  expectWord "new"
  expect "."
  expectWord "target"
  return .keyword "new.target"

def chainStart : Reader Expr := do
  let news ← newWords
  let start ← if ← atWord? "new" then newTarget else g.primary
  news.foldlM (fun e _ => g.constructStep e) start

def chainRule : Reader Expr := do
  let start ← g.chainStart
  let l ← iterate g.chainStep ⟨start, false⟩
  return if l.isOptional then .chain l.whole else l.whole

end SiteCompiler.Script.Grammar
