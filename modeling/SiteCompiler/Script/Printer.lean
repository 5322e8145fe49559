import SiteCompiler.Script.Level
import SiteCompiler.Script.Pieces

namespace SiteCompiler.Script

/-- What an expression stands in, as far as that asks for parentheses. -/
structure Spot where
  /-- Whether `in` would be read as the word of a loop. -/
  inLoopHead : Bool
  /-- Whether a call would be read as that of a constructor. -/
  afterNew : Bool

namespace Spot

def plain : Spot := ⟨false, false⟩

end Spot

namespace Writing

mutual


/-- An expression that takes the place of an operand at the given level: it is wrapped unless it
binds more tightly. -/
def expr (level : Level) (spot : Spot) : Expr → Writing Unit
  | .absent => pure ()
  | .name name => text name
  | .keyword word => text word
  | .label name => text name
  | .number literal => number literal
  | .regex literal => text literal
  | .string value => string value
  | .template texts values => do
    text "`"
    spans texts values
    text "`"
  | .tagged tag template => do
    expr .trailing .plain tag
    expr .member .plain template
  | .array elements _ => arrayElements elements (exprs .plain elements)
  | .object place ms _ => do
    let isCommented ← hasComment place
    let isFirst := (← atStatement) || (← atResult)
    wrap (isCommented || isFirst) do
      if isCommented then
        commentsAt place
        indent
      objectMembers (members ms)
  | .arrayPattern elements => do
    text "["
    elementsWithRest true elements (exprs .plain elements)
    text "]"
  | .objectPattern ms => inlineBraces (patternMembers ms)
  | .arrayTarget elements => do
    text "["
    elementsWithRest false elements (exprs spot elements)
    text "]"
  | .objectTarget ms => do
    text "\x7b"
    commas (targetMembers spot ms)
    text "\x7d"
  | .defaulted target value => do
    expr .comma spot target
    text " = "
    expr .comma spot value
  | .function head ps body close => do
    let isFirst := (← atStatement) || (← atDefault)
    wrap (isFirst || head.isEnclosed) do
      inertWord head
      function head (commas (parameters ps))
        (functionBody body.isEmpty close (bodyStatements body))
  | .arrow head ps result =>
    wrap (.assign ≤ level || head.isEnclosed) do
      arrow head (commas (parameters ps))
      markResult
      expr .comma spot result
  | .arrowBlock head ps body close =>
    wrap (.assign ≤ level || head.isEnclosed) do
      arrow head (commas (parameters ps))
      functionBody body.isEmpty close (bodyStatements body)
  | .classOf found name heritage ms => do
    let isFirst := (← atStatement) || (← atDefault)
    wrap isFirst do
      decorators found
      classHead name heritage.isAbsent (expr .trailing .plain heritage)
      braces ms.isEmpty (classMembers ms)
  | .property object isOptional name => do
    expr .trailing { spot with inLoopHead := false } object
    let (numberEnd, length) := ((← get).numberEnd, (← get).length)
    if isOptional then text "?."
    else if numberEnd = length && !Text.startsWith name "#" then text " ."
    else text "."
    text name
  | .element object isOptional index => do
    wrap (isDeclaringWord object) (expr .trailing { spot with inLoopHead := false } object)
    if isOptional then text "?."
    text "["
    expr .lowest .plain index
    text "]"
  | .call isPure callee isOptional args close => do
    let startsStatement ← atStatement
    let startsDefault ← atDefault
    wrap (.construct ≤ level || spot.afterNew || isPure && .trailing ≤ level) do
      if isPure then text purityMark
      if startsDefault then markDefault else if startsStatement then markStatement
      expr .trailing .plain callee
      if isOptional then text "?."
      argumentList close (arguments args)
  | .construct isPure callee args close =>
    wrap (.member ≤ level || isPure && .trailing ≤ level) do
      if isPure then text purityMark
      text "new "
      expr .construct ⟨false, true⟩ callee
      argumentList close (arguments args)
  | .chain links => wrap (.trailing ≤ level) (expr .lowest spot links)
  | .parens e => expr level spot e
  | .ascribed e => expr level spot e
  | .importCall phase args close =>
    wrap (.construct ≤ level || spot.afterNew) do
      text "import"
      if phase ≠ "" then text ("." ++ phase)
      argumentList close (importArguments args)
  | .unary operator operand =>
    wrap (.leading ≤ level) do
      if isWordOperator operator then word operator else prefixOperator operator
      expr .power spot operand
  | .await operand =>
    wrap (.leading ≤ level) do
      text "await "
      expr .power spot operand
  | .update operator true operand =>
    wrap (.leading ≤ level) do
      prefixOperator operator
      expr .leading spot operand
  | .update operator false operand =>
    wrap (.trailing ≤ level) do
      expr .trailing spot operand
      text operator
  | .binary operator left right =>
    if isPrivateName left then
      wrap (.comparison ≤ level) do
        expr .lowest .plain left
        text " in "
        expr .equality ⟨true, false⟩ right
    else
      let isWrapped : Bool :=
        Level.ofOperator operator ≤ level || operator = "in" && spot.inLoopHead
      let spot := if isWrapped then { spot with inLoopHead := false } else spot
      wrap isWrapped do
        expr (Level.ofLeft operator left) spot left
        text " "
        word operator
        expr (Level.ofRight operator right) { spot with afterNew := false } right
  | .assign operator target value => do
    let isFirst := (← atStatement) || (← atResult)
    wrap (.assign ≤ level || isObjectTarget target && isFirst) do
      expr .comma spot target
      text " "
      word operator
      expr .comma spot value
  | .conditional test yes no =>
    let inLoopHead := spot.inLoopHead && !decide (.conditional ≤ level)
    wrap (.conditional ≤ level) do
      expr .conditional ⟨inLoopHead, false⟩ test
      text " ? "
      expr .yield .plain yes
      text " : "
      expr .yield ⟨inLoopHead, false⟩ no
  | .yield isDelegated operand =>
    wrap (.assign ≤ level) do
      text (if isDelegated then "yield*" else "yield")
      if !operand.isAbsent then text " "
      expr .yield spot operand
  | .spread operand => do
    text "..."
    expr .comma spot operand
  | .computed operand => do
    text "["
    expr .comma .plain operand
    text "]"
  | .sequence items =>
    wrap (.comma ≤ level) (commas (sequenceItems { spot with afterNew := false } items))
  | .markup .. => pure ()

def exprs (spot : Spot) : List Expr → List (Writing Unit)
  | [] => []
  | e :: rest => expr .comma spot e :: exprs spot rest

def sequenceItems (spot : Spot) : List Expr → List (Writing Unit)
  | [] => []
  | e :: rest => expr .lowest spot e :: sequenceItems spot rest

def spans (texts : List String) : List Expr → Writing Unit
  | [] => chars (Points.guard (texts.headD "").toList)
  | e :: rest => do
    chars (Points.guard (texts.headD "").toList)
    text "$\x7b"
    expr .lowest .plain e
    text "\x7d"
    spans texts.tail rest

def arguments : List Argument → List (Place × Writing Unit)
  | [] => []
  | .mk place e :: rest => (place, expr .comma .plain e) :: arguments rest

def importArguments : List Argument → List (Place × Writing Unit)
  | [] => []
  | .mk place (.string value) :: rest => (place, specifier value) :: arguments rest
  | .mk place e :: rest => (place, expr .comma .plain e) :: arguments rest

def parameters : List Parameter → List (Writing Unit)
  | [] => []
  | .mk found _ pattern :: rest =>
    (do decorators found; expr .comma .plain pattern) :: parameters rest

def decorators : List Expr → Writing Unit
  | [] => pure ()
  | e :: rest => do
    text "@"
    wrap (!isPath e) (expr .lowest .plain e)
    text " "
    decorators rest

def members : List Member → List (Writing Unit)
  | [] => []
  | m :: rest => member m :: members rest

def member : Member → Writing Unit
  | .property key value => do
    if !(isShort key value.inside && !isPrototype key) then
      if isUnwritable key then
        text "["
        expr .comma .plain key
        text "]"
      else expr .comma .plain key
      text ": "
    expr .comma .plain value
  | .shorthand name initial => do
    text name
    if !initial.isAbsent then text " = "
    expr .comma .plain initial
  | .method kind key f => do
    methodWords kind f
    expr .comma .plain key
    method f
  | .spread operand => do
    text "..."
    expr .comma .plain operand

def patternMembers : List Member → List (Writing Unit)
  | [] => []
  | .property key value :: rest =>
    (do
      if !isShort key (undefaulted value) then
        expr .comma .plain key
        text ": "
      expr .comma .plain value) :: patternMembers rest
  | m :: rest => member m :: patternMembers rest

def targetMembers (spot : Spot) : List Member → List (Writing Unit)
  | [] => []
  | .property key value :: rest =>
    (do
      expr .comma .plain key
      text ": "
      expr .comma spot value) :: targetMembers spot rest
  | .shorthand name initial :: rest =>
    (do
      text name
      if !initial.isAbsent then text " = "
      expr .comma spot initial) :: targetMembers spot rest
  | m :: rest => member m :: targetMembers spot rest

def method : Expr → Writing Unit
  | .function _ ps body close => do
    text "("
    commas (parameters ps)
    text ") "
    functionBody body.isEmpty close (bodyStatements body)
  | _ => pure ()

def statements : List Stmt → Writing Unit
  | [] => pure ()
  | s :: rest => do
    statement s
    statements rest

/-- The statements of a program or a function; a string alone at their start is no directive. -/
def bodyStatements : List Stmt → Writing Unit
  | [] => pure ()
  | s :: rest => do
    match stringAlone? s with
    | some value => do
      wrap true (string value)
      semicolon
    | none => statement s
    statements rest

def statement : Stmt → Writing Unit
  | .mk place f => do
    commentsAt place
    form indent f

/-- A statement that is part of another one, behind what leads to it; `joins` tells whether a
condition goes on in the same line. -/
def part (joins : Bool) : Stmt → Writing Unit
  | .mk _ (.block inner) => do
    text " "
    braces inner.isEmpty (statements inner)
    newline
  | .mk _ .empty => semicolon
  | .mk place f =>
    if joins && isCondition f then form (text " ") f
    else do
      joinLine
      commentsAt place
      form indent f

/-- What a condition leads to; what ends in a condition without an alternative stands in braces. -/
def branch (hasAlternative : Bool) : Stmt → Writing Unit
  | .mk _ (.block inner) => do
    text " "
    braces inner.isEmpty (statements inner)
    if hasAlternative then text " " else newline
  | .mk _ .empty => do
    semicolon
    if hasAlternative then indent
  | .mk place f => do
    if endsInCondition f then
      text " "
      braces false do
        commentsAt place
        form indent f
      if hasAlternative then text " " else newline
    else
      joinLine
      commentsAt place
      form indent f
      if hasAlternative then indent

def form (start : Writing Unit) : Form → Writing Unit
  | .empty => do
    start
    semicolon
  | .expression e => do
    start
    markStatement
    expr .lowest .plain e
    semicolon
  | .directive content => do
    start
    directive content
    semicolon
  | .bindings kind found => do
    start
    word kind
    commas (exprs .plain found)
    semicolon
  | .declaration e => do
    inertLine e
    start
    declared e
    newline
  | .block inner => do
    start
    braces inner.isEmpty (statements inner)
    newline
  | .conditional test yes => do
    start
    text "if ("
    expr .lowest .plain test
    text ")"
    branch false yes
  | .alternative test yes no => do
    start
    text "if ("
    expr .lowest .plain test
    text ")"
    branch true yes
    text "else"
    part true no
  | .loop first test step inner => do
    start
    text "for ("
    head first
    text (if test.isAbsent then ";" else "; ")
    expr .lowest .plain test
    text (if step.isAbsent then ";" else "; ")
    expr .lowest .plain step
    text ")"
    part false inner
  | .traversal keyword isAwaited target source inner => do
    start
    text (if isAwaited then "for await (" else "for (")
    wrap (isAmbiguousTarget keyword isAwaited target) (head target)
    text " "
    word keyword
    expr (if keyword = "of" then .comma else .lowest) .plain source
    text ")"
    part false inner
  | .whileLoop test inner => do
    start
    text "while ("
    expr .lowest .plain test
    text ")"
    part false inner
  | .doLoop inner test => do
    start
    text "do"
    repeated inner
    text "while ("
    expr .lowest .plain test
    text ")"
    semicolon
  | .withObject object inner => do
    start
    text "with ("
    expr .lowest .plain object
    text ")"
    part false inner
  | .jump keyword operand => do
    start
    text keyword
    if !operand.isAbsent then text " "
    expr .lowest .plain operand
    semicolon
  | .labeled label inner => do
    start
    text label
    text ":"
    part false inner
  | .switch subject ways => do
    start
    text "switch ("
    expr .lowest .plain subject
    text ") "
    braces ways.isEmpty (cases ways)
    newline
  | .guarded inner rest => do
    start
    text "try "
    braces inner.isEmpty (statements inner)
    handlers rest
    newline
  | .exportDefault value => do
    inertLine value
    start
    text "export default "
    if value.isDeclaration then
      declared value
      newline
    else
      markDefault
      expr .comma .plain value
      semicolon
  | .exported f => form (do start; text "export ") f
  | f => do
    start
    moduleItem f
    semicolon

def repeated : Stmt → Writing Unit
  | .mk _ (.block inner) => do
    text " "
    braces inner.isEmpty (statements inner)
    text " "
  | .mk _ .empty => do
    semicolon
    indent
  | .mk place f => do
    joinLine
    commentsAt place
    form indent f
    indent

def head : Form → Writing Unit
  | .bindings kind found => do
    word kind
    commas (exprs ⟨true, false⟩ found)
  | .expression e => expr .lowest ⟨true, false⟩ e
  | _ => pure ()

def declared : Expr → Writing Unit
  | .function head ps body close =>
    function head (commas (parameters ps)) (functionBody body.isEmpty close (bodyStatements body))
  | .classOf found name heritage ms => do
    decorators found
    classHead name heritage.isAbsent (expr .trailing .plain heritage)
    braces ms.isEmpty (classMembers ms)
  | _ => pure ()

def classMembers : List ClassMember → Writing Unit
  | [] => pure ()
  | m :: rest => do
    classMember m
    classMembers rest

def classMember : ClassMember → Writing Unit
  | .named place found head key value => do
    commentsAt place
    indent
    decorators found
    if head.isStatic then text "static "
    if isField head.kind then
      if head.kind = .accessor then text "accessor "
      expr .comma .plain key
      if !value.isAbsent then text " = "
      expr .comma .plain value
      semicolon
    else
      methodWords head.kind value
      expr .comma .plain key
      method value
      newline
  | .staticBlock place body => do
    commentsAt place
    indent
    text "static "
    braces body.isEmpty (statements body)
    newline

def cases : List Case → Writing Unit
  | [] => pure ()
  | .mk test inner :: rest => do
    indent
    text (if test.isAbsent then "default" else "case ")
    expr .lowest .plain test
    text ":"
    caseBody inner
    cases rest

def caseBody : List Stmt → Writing Unit
  | [] => newline
  | [s] => part false s
  | s :: rest => do
    newline
    nested do
      statement s
      statements rest

def handlers : List Handler → Writing Unit
  | [] => pure ()
  | .onError parameter inner :: rest => do
    text " catch "
    if !parameter.isAbsent then
      wrap true (expr .comma .plain parameter)
      text " "
    braces inner.isEmpty (statements inner)
    handlers rest
  | .always inner :: rest => do
    text " finally "
    braces inner.isEmpty (statements inner)
    handlers rest

end

/-- A program: the line that tells what runs it, its statements, and the comments at its end. -/
def program (hashbang? : Option String) (body : List Stmt) (close : Place) : Writing Unit := do
  if let some line := hashbang? then
    text line
    newline
  bodyStatements body
  commentsAt close

end Writing
end SiteCompiler.Script
