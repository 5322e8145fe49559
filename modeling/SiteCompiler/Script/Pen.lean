import SiteCompiler.Script.Comment
import SiteCompiler.Script.Syntax
import SiteCompiler.Script.Template

namespace SiteCompiler.Script

structure Pen where
  /-- What has been written before the last stretch of text, the last piece first. -/
  written : Template
  /-- The last stretch of text, its last character first. -/
  line : List Char
  /-- How many characters have been written. -/
  length : Nat
  indentation : Nat
  /-- Whether a blank takes the place of the next indentation. -/
  joinsLine : Bool
  /-- Where the last statement starts, the last result of an arrow function, and what is exported as
  the default. -/
  statementStart : Nat
  resultStart : Nat
  defaultStart : Nat
  /-- Where the last operator before an operand ends, and which one it is. -/
  operator : Nat × String
  /-- Where the last whole number in decimal digits ends. -/
  numberEnd : Nat
  comments : List (Place × List Comment)

abbrev Writing := StateM Pen

namespace Pen

def start (comments : List (Place × List Comment)) : Pen := {
  written := [], line := [], length := 0, indentation := 0, joinsLine := false
  statementStart := 0, resultStart := 0, defaultStart := 0, operator := (0, ""), numberEnd := 0
  comments }

def template (p : Pen) : Template :=
  (.text p.line.reverse :: p.written).reverse

def last? (p : Pen) : Option Char :=
  p.line.head?

end Pen

namespace Writing

/-! ### Text -/

def chars (text : List Char) : Writing Unit :=
  modify fun p => { p with line := text.reverseAux p.line, length := p.length + text.length }

def text (s : String) : Writing Unit :=
  chars s.toList

def string (value : Points) : Writing Unit :=
  chars (Points.quoted value)

def specifier (value : Points) : Writing Unit := do
  text "\""
  modify fun p => { p with
    written := .specifier value :: .text p.line.reverse :: p.written, line := []
    length := p.length + 1 }
  text "\""

def newline : Writing Unit :=
  text "\n"

def indent : Writing Unit := do
  let p ← get
  if p.joinsLine then
    text " "
    set { (← get) with joinsLine := false }
  else chars (List.replicate p.indentation '\t')

def joinLine : Writing Unit :=
  modify ({ · with joinsLine := true })

def nested (inner : Writing Unit) : Writing Unit := do
  modify fun p => { p with indentation := p.indentation + 1 }
  inner
  modify fun p => { p with indentation := p.indentation - 1 }

def semicolon : Writing Unit :=
  text ";\n"

def wrap (isNeeded : Bool) (inner : Writing Unit) : Writing Unit := do
  if isNeeded then
    text "("
    inner
    text ")"
  else inner

def braces (isInline : Bool) (inner : Writing Unit) : Writing Unit := do
  text "\x7b"
  if isInline then inner
  else
    newline
    nested inner
    indent
  text "\x7d"

/-! ### Comments -/

def comments? (place : Place) : Writing (List Comment) := do
  let p ← get
  match p.comments.lookup place with
  | none => return []
  | some found => do
    set { p with comments := p.comments.filter (·.1 ≠ place) }
    return found

def hasComment (place : Place) : Writing Bool :=
  return ((← get).comments.lookup place).isSome

def commentLines (isFirst : Bool) : List (List Char) → Writing Unit
  | [] => pure ()
  | line :: rest => do
    if !isFirst then indent
    chars (Points.guard (line.dropWhile Text.isBlank))
    if !rest.isEmpty then newline
    commentLines false rest

def comment (c : Comment) : Writing Unit :=
  if c.isLine then chars (Points.guard c.text) else commentLines true c.lines

def beforeFirst (c : Comment) : Writing Unit := do
  if !c.afterBreak then indent
  else
    match (← get).last? with
    | none => pure ()
    | some '\n' => indent
    | some '\t' => pure ()
    | some _ => do newline; indent

/-- Comments behind the first one, and what separates them from what follows. -/
def laterComments (previous : Comment) : List Comment → Writing Unit
  | [] => if previous.isLine || previous.beforeBreak then newline else joinLine
  | c :: rest => do
    if c.afterBreak then do newline; indent
    else if c.isLegal then newline
    comment c
    laterComments c rest

def comments : List Comment → Writing Unit
  | [] => pure ()
  | c :: rest => do
    beforeFirst c
    comment c
    laterComments c rest

def commentsAt (place : Place) : Writing Unit := do
  comments (← comments? place)

def commentsAbove (place : Place) : Writing Bool := do
  let found ← comments? place
  found.forM fun c => do newline; indent; comment c
  if found.isEmpty then return false
  newline
  return true

/-! ### Positions -/

def markStatement : Writing Unit :=
  modify fun p => { p with statementStart := p.length }

def markResult : Writing Unit :=
  modify fun p => { p with resultStart := p.length }

def markDefault : Writing Unit :=
  modify fun p => { p with defaultStart := p.length }

def markNumber : Writing Unit :=
  modify fun p => { p with numberEnd := p.length }

def atStatement : Writing Bool :=
  return (← get).statementStart = (← get).length

def atResult : Writing Bool :=
  return (← get).resultStart = (← get).length

def atDefault : Writing Bool :=
  return (← get).defaultStart = (← get).length

def merge (first second : String) : Bool :=
  (first = "+" || first = "-") && (second = first || second = first ++ first)

def prefixOperator (operator : String) : Writing Unit := do
  let (place, previous) := (← get).operator
  if place = (← get).length && merge previous operator then text " "
  text operator
  modify fun p => { p with operator := (p.length, operator) }

end Writing
end SiteCompiler.Script
