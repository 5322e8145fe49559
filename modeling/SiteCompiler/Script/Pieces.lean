import SiteCompiler.Script.Pen

namespace SiteCompiler.Script

namespace Writing

/-! ### Pieces -/

def purityMark : String := "/* @__PURE__ */ "

def inertMark : String := "/* @__NO_SIDE_EFFECTS__ */"

def separated (separator : Writing Unit) : List (Writing Unit) → Writing Unit
  | [] => pure ()
  | [step] => step
  | step :: rest => do
    step
    separator
    separated separator rest

def commas (steps : List (Writing Unit)) : Writing Unit :=
  separated (text ", ") steps

def inlineBraces (steps : List (Writing Unit)) : Writing Unit := do
  text "\x7b"
  if !steps.isEmpty then
    text " "
    commas steps
    text " "
  text "\x7d"

def column (steps : List (Writing Unit)) : Writing Unit := do
  nested (separated (text ",") (steps.map fun step => do newline; indent; step))
  newline
  indent

def word (s : String) : Writing Unit := do
  if s ≠ "" then
    text s
    text " "

def directive (content : String) : Writing Unit := do
  let quote := if unescapedQuote content.toList = some '"' then "'" else "\""
  text quote
  text content
  text quote
where
  /-- The first quote without a backslash before it. -/
  unescapedQuote : List Char → Option Char
    | [] => none
    | '\\' :: _ :: rest => unescapedQuote rest
    | c :: rest => if c = '"' || c = '\'' then some c else unescapedQuote rest

def number (literal : String) : Writing Unit := do
  text literal
  if literal.toList.all Char.isDigit then markNumber

/-! ### Imports and exports -/

def portName : PortName → Writing Unit
  | .word name => text name
  | .text value => string value

def importName (n : ImportName) : Writing Unit := do
  portName n.outer
  if n.outer.points ≠ Points.ofString n.inner then
    text " as "
    text n.inner

def exportName (n : ExportName) : Writing Unit := do
  if ← hasComment n.place then
    commentsAt n.place
    text " "
  portName n.inner
  if n.inner.points ≠ n.outer.points then
    text " as "
    portName n.outer

def requestAttribute (a : Attribute) : Writing Unit := do
  portName a.key
  text ": "
  string a.value

def request (r : Request) : Writing Unit := do
  specifier r.specifier
  match r.attributes? with
  | some (keyword, attributes) => do
    text " "
    word keyword
    inlineBraces (attributes.map requestAttribute)
  | none => pure ()

/-- The names in braces, which are left out if there are none beside something else. -/
def listed (c : ImportClause) : Option (List ImportName) :=
  if c.default?.isSome then c.names?.filter (!·.isEmpty) else c.names?

def importClause (c : ImportClause) : Writing Unit :=
  commas (c.default?.toList.map text
    ++ c.everything?.toList.map (fun name => text ("* as " ++ name))
    ++ (listed c).toList.map fun names =>
      if names.isEmpty then text "\x7b\x7d" else inlineBraces (names.map importName))

def moduleItem : Form → Writing Unit
  | .importBare r => do
    text "import "
    request r
  | .importNames _ phase clause r => do
    text "import "
    word phase
    importClause clause
    text " from "
    request r
  | .exportAll _ alias? r => do
    text "export *"
    if let some name := alias? then
      text " as "
      portName name
    text " from "
    request r
  | .exportNames _ names request? => do
    text "export "
    inlineBraces (names.map exportName)
    if let some r := request? then
      text " from "
      request r
  | _ => pure ()

/-! ### Forms of expressions -/

def isWordOperator (operator : String) : Bool :=
  operator.toList.all Char.isAlpha

def isPrivateName : Expr → Bool
  | .keyword text => Text.startsWith text "#"
  | _ => false

def isShort (key value : Expr) : Bool :=
  match key, value with
  | .label name, .name other => name = other
  | _, _ => false

def isUnwritable : Expr → Bool
  | .number literal => literal = "Infinity"
  | _ => false

def undefaulted : Expr → Expr
  | .defaulted target _ => target
  | e => e

def isPrototype : Expr → Bool
  | .label name => name = "__proto__"
  | _ => false

def isObjectTarget : Expr → Bool
  | .objectTarget _ => true
  | _ => false

def isRest : Expr → Bool
  | .spread _ => true
  | _ => false

def isPath : Expr → Bool
  | .name _ => true
  | .property .. => true
  | .call _ callee _ _ _ => isPath callee
  | _ => false

def isInert : Expr → Bool
  | .function head _ _ _ => head.isInert
  | _ => false

def inertLine (e : Expr) : Writing Unit := do
  if isInert e then
    indent
    text inertMark
    newline

def inertWord (head : FunctionHead) : Writing Unit := do
  if head.isInert then
    text inertMark
    text " "

def function (head : FunctionHead) (parameters body : Writing Unit) : Writing Unit := do
  if head.isAsync then text "async "
  text "function"
  if head.isGenerator then text "* " else if head.name ≠ "" then text " "
  text head.name
  text "("
  parameters
  text ") "
  body

def classHead (name : String) (isAlone : Bool) (heritage : Writing Unit) : Writing Unit := do
  text "class "
  word name
  if !isAlone then
    text "extends "
    heritage
    text " "

def arrow (head : FunctionHead) (parameters : Writing Unit) : Writing Unit := do
  inertWord head
  if head.isAsync then text "async "
  text "("
  parameters
  text ") => "

def methodWords (kind : MemberKind) (f : Expr) : Writing Unit := do
  match kind with
  | .getter => text "get "
  | .setter => text "set "
  | _ => pure ()
  if let .function head _ _ _ := f then
    if head.isAsync then text "async "
    if head.isGenerator then text "*"

/-- The elements of a pattern for an array, and what takes the rest; `apart` tells whether a blank
sets that off where it stands alone. -/
def elementsWithRest (apart : Bool) (elements : List Expr) (steps : List (Writing Unit)) :
    Writing Unit := do
  let hasRest := (elements.getLast?.map isRest).getD false
  let plain := if hasRest then elements.dropLast else elements
  commas (steps.take plain.length)
  if (plain.getLast?.map (·.isAbsent || hasRest)).getD false then text ","
  if hasRest then
    if apart || !plain.isEmpty then text " "
    separated (pure ()) (steps.drop plain.length)

def arrayElements (elements : List Expr) (steps : List (Writing Unit)) : Writing Unit := do
  let closed := if (elements.getLast?.map Expr.isAbsent).getD false then
      steps.dropLast ++ steps.getLast?.toList.map fun step => do step; text ","
    else steps
  text "["
  if 2 < steps.length then column closed else commas closed
  text "]"

def objectMembers (steps : List (Writing Unit)) : Writing Unit := do
  if 1 < steps.length then
    text "\x7b"
    column steps
    text "\x7d"
  else inlineBraces steps

def isDeclaringWord (object : Expr) : Bool :=
  object.inside matches .name "let"

/-! ### Arguments -/

def lineBelowComments (place : Place) : Writing Unit := do
  if !(← commentsAbove place) then newline
  indent

/-- Arguments, each with its place. They are on one line unless there are comments among them. -/
def argumentList (close : Place) (arguments : List (Place × Writing Unit)) : Writing Unit := do
  text "("
  let inFront ← arguments.anyM fun (place, _) => hasComment place
  if inFront || (← hasComment close) then
    nested do
      separated (text ",") (arguments.map fun (place, step) => do lineBelowComments place; step)
      if !(← commentsAbove close) then newline
    indent
  else commas (arguments.map (·.2))
  text ")"

/-! ### Forms of statements -/

def functionBody (isEmpty : Bool) (close : Place) (body : Writing Unit) : Writing Unit := do
  let found ← comments? close
  braces (isEmpty && !found.any Comment.touchesBreak) do
    body
    comments found

def isCondition : Form → Bool
  | .conditional .. => true
  | .alternative .. => true
  | _ => false

/-- Whether a word `else` behind a statement would belong to a condition at the end of it. -/
def endsInCondition : Form → Bool
  | .conditional _ _ => true
  | .alternative _ _ (.mk _ no) => endsInCondition no
  | .loop _ _ _ (.mk _ body) => endsInCondition body
  | .traversal _ _ _ _ (.mk _ body) => endsInCondition body
  | .whileLoop _ (.mk _ body) => endsInCondition body
  | .withObject _ (.mk _ body) => endsInCondition body
  | .labeled _ (.mk _ body) => endsInCondition body
  | _ => false

def isField (kind : MemberKind) : Bool :=
  kind = .field || kind = .accessor

def isAmbiguousTarget (keyword : String) (isAwaited : Bool) : Form → Bool
  | .expression (.name name) => name = "async" && keyword = "of" && !isAwaited
  | _ => false

def stringAlone? : Stmt → Option Points
  | .mk _ (.expression e) =>
    match e.inside with
    | .string value => some value
    | _ => none
  | _ => none

end Writing
end SiteCompiler.Script
