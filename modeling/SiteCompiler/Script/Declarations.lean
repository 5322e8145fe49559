import SiteCompiler.Script.Classes

namespace SiteCompiler.Script.Grammar

open Reader

variable (g : Grammar)

/-! ### Variables -/

/-- Whether variables of a kind hold resources, which are disposed of behind their block. -/
def isResource (kind : String) : Bool :=
  kind = "using" || kind = "await using"

def needsValue (kind : String) : Expr → Bool
  | .name _ => kind = "const" || isResource kind
  | .defaulted .. => false
  | _ => true

def declarator : Reader Expr := do
  let target ← g.pattern
  if ← hasTypes then
    if !(← afterBreak) then discard (accept "!")
    discard (accept "?")
  g.typeMark
  return withDefault target (← g.initializer)

def usingAhead : Reader Bool := do
  let isBound (t : Token) : Bool := isName t && t ≠ .word "of"
  return (← atWord? "using") && (← nextOnLine? isBound)

def awaitUsingAhead : Reader Bool := do
  if !(← atWord? "await") then return false
  holdsAhead do
    advance
    return !(← afterBreak) && (← usingAhead)

def variableKind : Reader String := do
  if ← awaitUsingAhead then
    require (← surroundings).allowsAwait
    advance
    advance
    return "await using"
  anyWord

def openBindings : Reader (String × List Expr) := do
  let kind ← variableKind
  return (kind, ← separated g.declarator)

def hasValues (kind : String) (found : List Expr) : Bool :=
  found.all (!needsValue kind ·)

def variableStatement : Reader Form := do
  let (kind, found) ← g.openBindings
  require (hasValues kind found || (← surroundings).isAmbient)
  endOfStatement
  return .bindings kind found

/-! ### Functions and classes -/

def hasOwnName : Expr → Bool
  | .function head .. => head.name ≠ ""
  | .classOf _ name _ _ => name ≠ ""
  | _ => false

def functionDeclaration (needsName : Bool) : Reader Form := do
  let f ← g.function false
  require (hasOwnName f || !needsName)
  require !((← surroundings).isAmbient && isWhole f)
  return .declaration f

def isPlainFunction : Form → Bool
  | .declaration (.function head ..) => !head.isAsync && !head.isGenerator
  | _ => true

def classDeclaration (found : List Expr) (needsName : Bool) : Reader Form := do
  discard (acceptWord "abstract")
  let c ← g.classFrom found
  require (hasOwnName c || !needsName)
  return .declaration c

/-- Whether a class starts here that objects are made of only by way of others. -/
def abstractClassAhead : Reader Bool := do
  return (← hasTypes) && (← atWord? "abstract") && (← nextOnLine? (· = .word "class"))

def classAhead : Reader Bool := do
  return (← atWord? "class") || (← abstractClassAhead)

/-! ### Types -/

def interface : Reader Form := do
  expectWord "interface"
  let name ← identifier
  g.typeParameters
  if ← acceptWord "extends" then discard (separated g.type)
  Types.members g
  return .typeNamed name

def typeAlias : Reader Form := do
  expectWord "type"
  let name ← identifier
  g.typeParameters
  expect "="
  g.type
  endOfStatement
  return .typeNamed name

/-! ### Enumerations -/

def enumeratorName : Reader Points := do
  match ← token with
  | .string _ value => do advance; return value
  | .punctuation "[" => do
    advance
    let name ← match ← token with
      | .string _ value => pure value
      | .template text true => ofOption (Token.cooked? text)
      | _ => failure
    advance
    expect "]"
    return name
  | _ => return Points.ofString (← anyWord)

def enumerator : Reader Enumerator := do
  let start ← place
  let name ← enumeratorName
  return .mk start name (← within ({ · with allowsIn := true }) g.initializer)

def enumeration : Reader Form := do
  discard (acceptWord "const")
  expectWord "enum"
  let name ← identifier
  expect "\x7b"
  let members ← many do
    if ← at? "\x7d" then return none
    let m ← g.enumerator
    if !(← at? "\x7d") then expect ","
    return some m
  let close ← place
  expect "\x7d"
  return .enumeration name members close

/-! ### Namespaces -/

/-- A namespace under a name with parts, each of which is exported by the one before it. -/
def spaceNamed (start : Place) (body : List Stmt) : List String → Form
  | [] => .nothing
  | [name] => .space name body
  | name :: rest => .space name [.mk start (.exported (spaceNamed start body rest))]

def space : Reader Form := do
  advance
  let start ← place
  match ← token with
  | .string .. => do
    advance
    if ← at? "\x7b" then return .ambient (.space "" (← g.braced true))
    endOfStatement
    return .nothing
  | _ => do
    let first ← identifier
    let rest ← many do
      if ← accept "." then return some (← anyWord) else return none
    return spaceNamed start (← g.braced true) (first :: rest)

def globalSpace : Reader Form := do
  expectWord "global"
  return .ambient (.space "" (← g.braced true))

/-! ### Declarations that only types bring along -/

/-- Whether a word that starts no declaration elsewhere does so here, by the tokens behind it. -/
def declarationBehind : Nat → Reader Bool
  | 0 => return false
  | n + 1 => do
    match ← token with
    | .word text =>
      if ["var", "let", "const", "function", "class", "enum"].contains text then return true
      if ["interface", "type"].contains text then return ← nextOnLine? isName
      if ["module", "namespace"].contains text then
        return ← nextOnLine? fun t => isName t || t matches .string ..
      if text = "global" then return ← next? fun t => isName t || isOpening t || t = .word "export"
      if text = "import" then return ← next? fun t => isAnyWord t || isOpening t
      if ["abstract", "accessor", "async", "declare", "private", "protected", "public",
          "readonly"].contains text then
        advance
        if ← afterBreak then return false
        return ← declarationBehind n
      return false
    | _ => return false
where
  isOpening (t : Token) : Bool := t = .punctuation "\x7b"

def declarationWords : List String :=
  ["interface", "type", "module", "namespace", "declare", "enum", "abstract", "global", "private",
    "protected", "public", "accessor", "readonly"]

/-- Whether a declaration starts here with a word that has no meaning without types. -/
def typedDeclarationAhead : Reader Bool := do
  match ← token with
  | .word text =>
    if !(← hasTypes) || !declarationWords.contains text then return false
    holdsAhead (declarationBehind (← get).bound)
  | _ => return false

/-- Whether an enumeration starts here whose members may be put in place of its name. -/
def constEnumAhead : Reader Bool := do
  return (← hasTypes) && (← atWord? "const") && (← next? (· = .word "enum"))

def declared : Reader Form := do
  match ← token with
  | .word text =>
    if text = "interface" then g.interface
    else if text = "type" then g.typeAlias
    else if text = "enum" || (← constEnumAhead) then g.enumeration
    else if text = "module" || text = "namespace" then g.space
    else if text = "global" then g.globalSpace
    else if text = "function" then g.functionDeclaration true
    else if ["var", "let", "const"].contains text then g.variableStatement
    else if ← classAhead then g.classDeclaration [] true
    else failure
  | _ => failure

/-- A declaration that starts with a word that has no meaning without types. -/
def typedDeclaration : Reader Form := do
  within ({ · with allowsAwait := false }) do
    if ← acceptWord "declare" then
      return .ambient (← within ({ · with isAmbient := true }) g.declared)
    g.declared

end SiteCompiler.Script.Grammar
