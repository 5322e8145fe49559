import SiteCompiler.Script.Constants

namespace SiteCompiler.Script.Enumeration

def memberOf (enum : String) (key : Expr) : Expr :=
  .element (.name enum) false key

def textual (enum : String) (name : Points) (value : Expr) : Expr :=
  .assign "=" (memberOf enum (.string name)) value

def numbered (enum : String) (name : Points) (value : Expr) : Expr :=
  .assign "=" (memberOf enum (textual enum name value)) (.string name)

structure Valued where
  place : Place
  name : Points
  value : Expr
  constant? : Option Constant

def Valued.statement (enum : String) (m : Valued) : Stmt :=
  let e := match m.constant? with
    | some (.text _) => textual enum m.name m.value
    | _ => numbered enum m.name m.value
  .mk m.place (.expression e)

/-- The value of a member without one of its own, behind another member: one more than that one,
which must be no text. -/
def successor? (enum : String) (before : Option Valued) : Option (Expr × Option Constant) :=
  match before with
  | none => some (.number "0", some (.number 0))
  | some m =>
    match m.constant? with
    | some (.number f) => some ((Constant.number (f + 1)).toExpr, some (.number (f + 1)))
    | some (.text _) => none
    | none => some (.binary "+" (.number "1") (memberOf enum (.string m.name)), none)

/-- Whether a member is given by something that may do more than compute it. -/
def hasEffect : Enumerator → Bool
  | .mk _ _ (.call ..) => true
  | .mk _ _ (.construct ..) => true
  | _ => false

inductive Holder where
  /-- A new one that nothing else can fill. -/
  | fresh
  /-- One that may be there, and then the members are added to the object that is in it. -/
  | shared
  /-- One that was declared before. -/
  | reused
deriving DecidableEq, Repr

def filled (enum : String) (holder : Holder) (isPure : Bool) (members : List Valued)
    (close : Place) : Expr :=
  let body := members.map (Valued.statement enum) ++ [.mk 0 (.jump "return" (.name enum))]
  let made : Expr := .function .plain [.mk [] false (.name enum)] body close
  let start : Expr := match holder with
    | .fresh => .object 0 [] false
    | _ => .binary "||" (.name enum) (.object 0 [] false)
  .call isPure made false [.mk 0 start] 0

def form (enum : String) (holder : Holder) (object : Expr) : Form :=
  match holder with
  | .fresh => .bindings "let" [.defaulted (.name enum) object]
  | .shared => .bindings "var" [.defaulted (.name enum) object]
  | .reused => .expression (.assign "=" (.name enum) object)

end SiteCompiler.Script.Enumeration
