import SiteCompiler.Script.Syntax

namespace SiteCompiler.Script.Names

def without (bound names : List String) : List String :=
  names.filter (!bound.contains ·)

mutual

def ofPattern : Expr → List String
  | .name name => [name]
  | .defaulted target _ => ofPattern target
  | .spread operand => ofPattern operand
  | .arrayPattern elements => ofPatterns elements
  | .objectPattern members => ofPatternMembers members
  | _ => []

def ofPatterns : List Expr → List String
  | [] => []
  | e :: rest => ofPattern e ++ ofPatterns rest

def ofPatternMembers : List Member → List String
  | [] => []
  | .property _ value :: rest => ofPattern value ++ ofPatternMembers rest
  | .spread operand :: rest => ofPattern operand ++ ofPatternMembers rest
  | _ :: rest => ofPatternMembers rest

end

def ofParameters (parameters : List Parameter) : List String :=
  parameters.flatMap fun p => ofPattern p.pattern

def ofDeclaration : Expr → List String
  | .function head .. => [head.name]
  | .classOf _ name _ _ => [name]
  | _ => []

/-- The names of values that a statement declares for the statements beside it. -/
def declaredBy : Form → List String
  | .bindings _ declarators => ofPatterns declarators
  | .declaration e => ofDeclaration e
  | .exportDefault e => ofDeclaration e
  | .exported f => declaredBy f
  | .ambient f => declaredBy f
  | .enumeration name _ _ => [name]
  | .space name _ => [name]
  | .partImport _ name _ => [name]
  | _ => []

mutual

def hoisted : Form → List String
  | .bindings "var" declarators => ofPatterns declarators
  | .block body => hoistedIn body
  | .conditional _ yes => hoistedBy yes
  | .alternative _ yes no => hoistedBy yes ++ hoistedBy no
  | .loop start _ _ body => hoisted start ++ hoistedBy body
  | .traversal _ _ target _ body => hoisted target ++ hoistedBy body
  | .whileLoop _ body => hoistedBy body
  | .doLoop body _ => hoistedBy body
  | .withObject _ body => hoistedBy body
  | .labeled _ body => hoistedBy body
  | .switch _ cases => hoistedInCases cases
  | .guarded body handlers => hoistedIn body ++ hoistedInHandlers handlers
  | .exported f => hoisted f
  | _ => []

def hoistedBy : Stmt → List String
  | .mk _ form => hoisted form

def hoistedIn : List Stmt → List String
  | [] => []
  | s :: rest => hoistedBy s ++ hoistedIn rest

def hoistedInCases : List Case → List String
  | [] => []
  | .mk _ body :: rest => hoistedIn body ++ hoistedInCases rest

def hoistedInHandlers : List Handler → List String
  | [] => []
  | .onError _ body :: rest => hoistedIn body ++ hoistedInHandlers rest
  | .always body :: rest => hoistedIn body ++ hoistedInHandlers rest

end

def declaredAmong (body : List Stmt) : List String :=
  body.flatMap fun s => declaredBy s.form

def declaredIn (body : List Stmt) : List String :=
  declaredAmong body ++ hoistedIn body

def declaredInCases (cases : List Case) : List String :=
  cases.flatMap fun (.mk _ body) => declaredAmong body

def ofExportName (n : ExportName) : List String :=
  match n.isType, n.inner with
  | false, .word name => [name]
  | _, _ => []

def ofEnumerators (members : List Enumerator) : List String :=
  members.map fun (.mk _ name _) => name.toText

mutual

def ofExpr : Expr → List String
  | .absent => []
  | .name name => [name]
  | .keyword _ => []
  | .label _ => []
  | .number _ => []
  | .regex _ => []
  | .string _ => []
  | .template _ values => ofExprs values
  | .tagged tag template => ofExpr tag ++ ofExpr template
  | .array elements _ => ofExprs elements
  | .object _ members _ => ofMembers members
  | .arrayPattern elements => ofExprs elements
  | .objectPattern members => ofMembers members
  | .arrayTarget elements => ofExprs elements
  | .objectTarget members => ofMembers members
  | .defaulted target value => ofExpr target ++ ofExpr value
  | .function head parameters body _ =>
    without (head.name :: ofParameters parameters)
      (ofParameterList parameters ++ without (declaredIn body) (ofStmts body))
  | .arrow _ parameters result =>
    without (ofParameters parameters) (ofParameterList parameters ++ ofExpr result)
  | .arrowBlock _ parameters body _ =>
    without (ofParameters parameters)
      (ofParameterList parameters ++ without (declaredIn body) (ofStmts body))
  | .classOf decorators name heritage members =>
    ofExprs decorators ++ without [name] (ofExpr heritage ++ ofClassMembers members)
  | .property object _ _ => ofExpr object
  | .element object _ index => ofExpr object ++ ofExpr index
  | .call _ callee _ arguments _ => ofExpr callee ++ ofArguments arguments
  | .construct _ callee arguments _ => ofExpr callee ++ ofArguments arguments
  | .chain links => ofExpr links
  | .parens e => ofExpr e
  | .ascribed e => ofExpr e
  | .importCall _ arguments _ => ofArguments arguments
  | .unary _ operand => ofExpr operand
  | .await operand => ofExpr operand
  | .update _ _ operand => ofExpr operand
  | .binary _ left right => ofExpr left ++ ofExpr right
  | .assign _ target value => ofExpr target ++ ofExpr value
  | .conditional test yes no => ofExpr test ++ ofExpr yes ++ ofExpr no
  | .yield _ operand => ofExpr operand
  | .spread operand => ofExpr operand
  | .computed operand => ofExpr operand
  | .sequence items => ofExprs items
  | .markup _ tag attributes children _ => ofExpr tag ++ ofMembers attributes ++ ofArguments children

def ofExprs : List Expr → List String
  | [] => []
  | e :: rest => ofExpr e ++ ofExprs rest

def ofArguments : List Argument → List String
  | [] => []
  | .mk _ e :: rest => ofExpr e ++ ofArguments rest

def ofParameterList : List Parameter → List String
  | [] => []
  | .mk decorators _ pattern :: rest =>
    ofExprs decorators ++ ofExpr pattern ++ ofParameterList rest

def ofMembers : List Member → List String
  | [] => []
  | .property key value :: rest => ofExpr key ++ ofExpr value ++ ofMembers rest
  | .shorthand name initial :: rest => name :: ofExpr initial ++ ofMembers rest
  | .method _ key function :: rest => ofExpr key ++ ofExpr function ++ ofMembers rest
  | .spread operand :: rest => ofExpr operand ++ ofMembers rest

def ofClassMembers : List ClassMember → List String
  | [] => []
  | .named _ decorators _ key value :: rest =>
    ofExprs decorators ++ ofExpr key ++ ofExpr value ++ ofClassMembers rest
  | .staticBlock _ body :: rest => without (declaredIn body) (ofStmts body) ++ ofClassMembers rest

def ofStmts : List Stmt → List String
  | [] => []
  | .mk _ form :: rest => ofForm form ++ ofStmts rest

def ofStmt : Stmt → List String
  | .mk _ form => ofForm form

/-- The names that a statement mentions, apart from those that it binds for its own parts. -/
def ofForm : Form → List String
  | .empty => []
  | .expression e => ofExpr e
  | .directive _ => []
  | .bindings _ declarators => ofExprs declarators
  | .declaration e => ofExpr e
  | .block body => without (declaredAmong body) (ofStmts body)
  | .conditional test yes => ofExpr test ++ ofStmt yes
  | .alternative test yes no => ofExpr test ++ ofStmt yes ++ ofStmt no
  | .loop start test step body =>
    without (declaredBy start) (ofForm start ++ ofExpr test ++ ofExpr step ++ ofStmt body)
  | .traversal _ _ target source body =>
    without (declaredBy target) (ofForm target ++ ofExpr source ++ ofStmt body)
  | .whileLoop test body => ofExpr test ++ ofStmt body
  | .doLoop body test => ofStmt body ++ ofExpr test
  | .withObject object body => ofExpr object ++ ofStmt body
  | .jump _ operand => ofExpr operand
  | .labeled _ body => ofStmt body
  | .switch subject cases => ofExpr subject ++ without (declaredInCases cases) (ofCases cases)
  | .guarded body handlers => without (declaredAmong body) (ofStmts body) ++ ofHandlers handlers
  | .importBare _ => []
  | .importNames .. => []
  | .exportAll .. => []
  | .exportNames isType names request? =>
    if isType || request?.isSome then [] else names.flatMap ofExportName
  | .exportDefault value => ofExpr value
  | .exported declaration => ofForm declaration
  | .typeNamed _ => []
  | .ambient declared => ofForm declared
  | .enumeration name members _ => without (name :: ofEnumerators members) (ofInitials members)
  | .space name body => without (name :: declaredIn body) (ofStmts body)
  | .partImport isType _ value => if isType then [] else ofExpr value
  | .required .. => []
  | .nothing => []

def ofInitials : List Enumerator → List String
  | [] => []
  | .mk _ _ initial :: rest => ofExpr initial ++ ofInitials rest

def ofCases : List Case → List String
  | [] => []
  | .mk test body :: rest => ofExpr test ++ ofStmts body ++ ofCases rest

def ofHandlers : List Handler → List String
  | [] => []
  | .onError parameter body :: rest =>
    without (ofPattern parameter ++ declaredAmong body) (ofExpr parameter ++ ofStmts body)
      ++ ofHandlers rest
  | .always body :: rest => without (declaredAmong body) (ofStmts body) ++ ofHandlers rest

end

/-! ### New names -/

def freshStart (name : String) : String :=
  let letters := name.toList.dropWhile (· = '_')
  .ofList ('_' :: (letters.reverse.dropWhile Char.isDigit).reverse)

/-- The first name with a start that is not taken, when `n` of them have been tried. -/
def freeFrom (taken : List String) (start : String) : Nat → Nat → String
  | 0, n => start ++ toString n
  | fuel + 1, n =>
    let name := if n < 2 then start else start ++ toString n
    if taken.contains name then freeFrom taken start fuel (n + 1) else name

def fresh (taken : List String) (name : String) : String :=
  freeFrom taken (freshStart name) (taken.length + 1) 1

end SiteCompiler.Script.Names
