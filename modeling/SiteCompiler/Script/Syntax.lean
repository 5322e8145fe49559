import SiteCompiler.Script.Points

namespace SiteCompiler.Script

/-- A place in a program, counted in characters; what stands in no program has place zero. -/
abbrev Place := Nat

/-- The name under which a module exports something: a word or a string. -/
inductive PortName where
  | word (name : String)
  | text (value : Points)
deriving DecidableEq, Repr, Inhabited

def PortName.points : PortName → Points
  | word name => .ofString name
  | text value => value

/-- What a module offers under `outer`, bound to the name `inner`. -/
structure ImportName where
  isType : Bool
  outer : PortName
  inner : String
deriving DecidableEq, Repr

structure ExportName where
  isType : Bool
  place : Place
  inner : PortName
  outer : PortName
deriving DecidableEq, Repr

/-- What an import binds: the default, everything, or listed names. -/
structure ImportClause where
  default? : Option String
  everything? : Option String
  names? : Option (List ImportName)
deriving DecidableEq, Repr

def ImportClause.names (c : ImportClause) : List String :=
  c.default?.toList ++ c.everything?.toList ++ (c.names?.getD []).map (·.inner)

structure Attribute where
  key : PortName
  value : Points
deriving DecidableEq, Repr

/-- The module that is asked for, and the attributes with which, behind their keyword. -/
structure Request where
  specifier : Points
  attributes? : Option (String × List Attribute)
deriving DecidableEq, Repr

structure FunctionHead where
  isAsync : Bool
  isGenerator : Bool
  /-- Whether a comment tells that calls have no effects. -/
  isInert : Bool
  /-- Whether the function stands in parentheses of its own. -/
  isEnclosed : Bool
  /-- The name, which is empty if there is none. -/
  name : String
  /-- Whether there is a body; otherwise only the type of the function is told. -/
  hasBody : Bool
deriving DecidableEq, Repr

inductive MemberKind where
  | method
  | getter
  | setter
  | constructor
  | field
  | accessor
deriving DecidableEq, Repr

structure MemberHead where
  isStatic : Bool
  /-- Whether the member is declared and not made. -/
  isDeclared : Bool
  kind : MemberKind
deriving DecidableEq, Repr

mutual

/-- Expressions, and the patterns that bind or are assigned to. A place that is left empty, such as
a missing element of an array, holds `absent`. -/
inductive Expr where
  | absent
  | name (name : String)
  /-- A word with a meaning of its own, such as `this`. -/
  | keyword (text : String)
  /-- The name of a property where it is declared. -/
  | label (name : String)
  | number (text : String)
  | regex (text : String)
  | string (value : Points)
  /-- A template, as texts with values between them. -/
  | template (texts : List String) (values : List Expr)
  | tagged (tag template : Expr)
  | array (elements : List Expr) (endsInComma : Bool)
  | object (place : Place) (members : List Member) (endsInComma : Bool)
  /-- Patterns that bind names. -/
  | arrayPattern (elements : List Expr)
  | objectPattern (members : List Member)
  /-- Patterns that are assigned to. -/
  | arrayTarget (elements : List Expr)
  | objectTarget (members : List Member)
  /-- A pattern and what it takes when nothing is given for it. -/
  | defaulted (target value : Expr)
  | function (head : FunctionHead) (parameters : List Parameter) (body : List Stmt) (close : Place)
  | arrow (head : FunctionHead) (parameters : List Parameter) (result : Expr)
  | arrowBlock (head : FunctionHead) (parameters : List Parameter) (body : List Stmt)
      (close : Place)
  | classOf (decorators : List Expr) (name : String) (heritage : Expr) (members : List ClassMember)
  | property (object : Expr) (isOptional : Bool) (name : String)
  | element (object : Expr) (isOptional : Bool) (index : Expr)
  | call (isPure : Bool) (callee : Expr) (isOptional : Bool) (arguments : List Argument)
      (close : Place)
  | construct (isPure : Bool) (callee : Expr) (arguments : List Argument) (close : Place)
  /-- A whole chain of properties and calls in which some link is optional. -/
  | chain (links : Expr)
  | parens (inside : Expr)
  /-- An expression that is said to have a type. -/
  | ascribed (inside : Expr)
  /-- A module that is asked for when the expression is evaluated. -/
  | importCall (phase : String) (arguments : List Argument) (close : Place)
  | unary (operator : String) (operand : Expr)
  | await (operand : Expr)
  | update (operator : String) (isLeading : Bool) (operand : Expr)
  | binary (operator : String) (left right : Expr)
  | assign (operator : String) (target value : Expr)
  | conditional (test yes no : Expr)
  | yield (isDelegated : Bool) (operand : Expr)
  | spread (operand : Expr)
  /-- The name of a property that is computed. -/
  | computed (operand : Expr)
  | sequence (items : List Expr)
  /-- An element with its tag, attributes and children; a fragment has no tag. -/
  | markup (tagPlace : Place) (tag : Expr) (attributes : List Member) (children : List Argument)
      (close : Place)

inductive Argument where
  | mk (place : Place) (value : Expr)

inductive Parameter where
  | mk (decorators : List Expr) (isProperty : Bool) (pattern : Expr)

inductive Member where
  | property (key value : Expr)
  /-- A name that is key and value in one; a pattern can give it a default. -/
  | shorthand (name : String) (initial : Expr)
  | method (kind : MemberKind) (key function : Expr)
  | spread (operand : Expr)

inductive ClassMember where
  /-- A method holds a function, a field its value. -/
  | named (place : Place) (decorators : List Expr) (head : MemberHead) (key value : Expr)
  | staticBlock (place : Place) (body : List Stmt)

inductive Stmt where
  | mk (place : Place) (form : Form)

inductive Form where
  | empty
  | expression (e : Expr)
  /-- A string literal as it is written, alone at the start of a program or a body. -/
  | directive (text : String)
  | bindings (kind : String) (declarators : List Expr)
  /-- A function or a class under its own name. -/
  | declaration (e : Expr)
  | block (body : List Stmt)
  | conditional (test : Expr) (yes : Stmt)
  | alternative (test : Expr) (yes no : Stmt)
  | loop (start : Form) (test step : Expr) (body : Stmt)
  /-- A loop over the keys (`in`) or the elements (`of`) of something. -/
  | traversal (keyword : String) (isAwaited : Bool) (target : Form) (source : Expr) (body : Stmt)
  | whileLoop (test : Expr) (body : Stmt)
  | doLoop (body : Stmt) (test : Expr)
  | withObject (object : Expr) (body : Stmt)
  /-- A keyword alone or with what it applies to, such as `return`. -/
  | jump (keyword : String) (operand : Expr)
  | labeled (label : String) (body : Stmt)
  | switch (subject : Expr) (cases : List Case)
  | guarded (body : List Stmt) (handlers : List Handler)
  | importBare (request : Request)
  | importNames (isType : Bool) (phase : String) (clause : ImportClause) (request : Request)
  | exportAll (isType : Bool) (alias? : Option PortName) (request : Request)
  | exportNames (isType : Bool) (names : List ExportName) (request? : Option Request)
  | exportDefault (value : Expr)
  | exported (declaration : Form)
  /-- The declaration of a type. -/
  | typeNamed (name : String)
  /-- What is said to exist elsewhere. -/
  | ambient (declared : Form)
  | enumeration (name : String) (members : List Enumerator) (close : Place)
  | space (name : String) (body : List Stmt)
  /-- A name for a part of a namespace. -/
  | partImport (isType : Bool) (name : String) (value : Expr)
  /-- Everything in another module by one name, as types only. -/
  | required (isType : Bool) (name : String)
  /-- What leaves nothing and declares nothing. -/
  | nothing

inductive Enumerator where
  | mk (place : Place) (name : Points) (initial : Expr)

inductive Case where
  | mk (test : Expr) (body : List Stmt)

inductive Handler where
  | onError (parameter : Expr) (body : List Stmt)
  | always (body : List Stmt)

end

instance : Inhabited Expr := ⟨.absent⟩
instance : Inhabited Form := ⟨.empty⟩
instance : Inhabited Stmt := ⟨.mk 0 .empty⟩

def Argument.place : Argument → Place
  | mk place _ => place

def Argument.value : Argument → Expr
  | mk _ value => value

def Parameter.pattern : Parameter → Expr
  | mk _ _ pattern => pattern

def Stmt.form : Stmt → Form
  | mk _ form => form

def Stmt.place : Stmt → Place
  | mk place _ => place

namespace Expr

def inside : Expr → Expr
  | parens e => e.inside
  | e => e

/-- The expression without parentheses and without the types that it is said to have. -/
def bare : Expr → Expr
  | parens e => e.bare
  | ascribed e => e.bare
  | e => e

def isAbsent : Expr → Bool
  | absent => true
  | _ => false

/-- Whether an expression is a function or a class, which can be declared by what it is. -/
def isDeclaration : Expr → Bool
  | function .. => true
  | classOf .. => true
  | _ => false

end Expr

def FunctionHead.plain : FunctionHead := ⟨false, false, false, false, "", true⟩

end SiteCompiler.Script
