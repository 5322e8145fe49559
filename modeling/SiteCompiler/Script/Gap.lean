import SiteCompiler.Script.Token

namespace SiteCompiler.Script

structure Gap where
  /-- Whether a line ends here. -/
  hasBreak : Bool
  /-- The comments that belong to the token behind the gap. -/
  comments : List Comment
  /-- Whether some comment marks a call or a function behind the gap. -/
  isPure : Bool
  isInert : Bool
  /-- What comments tell about elements, kept or not. -/
  pragmas : List Pragma
deriving Repr, Inhabited

namespace Gap

/-- The state of a scan: the comments that still can belong to the next token, and whether a line
feed was passed. Other line breaks end a line without being a line feed. -/
structure Scan where
  gap : Gap
  pastFeed : Bool
  width : Nat
deriving Inhabited

def cutBlock? : List Char → Option (List Char)
  | [] => none
  | '*' :: '/' :: _ => some ['*', '/']
  | c :: rest => (cutBlock? rest).map (c :: ·)

/-- Notes a line feed behind the last comment; the comments on the line of the token before are not
kept. -/
def Scan.feed (s : Scan) : Scan :=
  let marked := s.gap.comments.dropLast
    ++ s.gap.comments.getLast?.toList.map ({ · with beforeBreak := true })
  { s with
    gap := { s.gap with hasBreak := true, comments := if s.pastFeed then marked else [] }
    pastFeed := true, width := s.width + 1 }

def Scan.add (s : Scan) (c : Comment) : Scan :=
  { s with
    gap := {
      hasBreak := s.gap.hasBreak || c.text.any Comment.isBreak
      comments := s.gap.comments ++ [c]
      isPure := s.gap.isPure || c.marksPure
      isInert := s.gap.isInert || c.marksInert
      pragmas := s.gap.pragmas ++ Pragma.inText c.content }
    width := s.width + c.text.length }

/-- Adds the comment that ends its line; `keeps` tells whether the token before lets it stand. -/
def Scan.addLine (s : Scan) (keeps : Bool) (text : List Char) : Scan :=
  let added := s.add ⟨text, true, s.pastFeed, true⟩
  let kept := if s.pastFeed || keeps then added.gap.comments else []
  { added with gap := { added.gap with hasBreak := true, comments := kept }, pastFeed := true }

def scan (keeps : Bool) : Nat → Scan → List Char → Option Scan
  | 0, _, _ => none
  | fuel + 1, s, cs =>
    match cs with
    | '/' :: '/' :: _ =>
      let text := cs.takeWhile (!Comment.isBreak ·)
      scan keeps fuel (s.addLine keeps text) (cs.drop text.length)
    | '/' :: '*' :: rest => do
      let text ← cutBlock? rest
      let text := '/' :: '*' :: text
      scan keeps fuel (s.add ⟨text, false, s.pastFeed, false⟩) (cs.drop text.length)
    | c :: rest =>
      if c = '\n' || c = '\r' then scan keeps fuel s.feed rest
      else if Comment.isBreak c then
        let gap := { s.gap with hasBreak := true }
        scan keeps fuel { s with gap, width := s.width + 1 } rest
      else if Token.isBlank c then scan keeps fuel { s with width := s.width + 1 } rest
      else some s
    | [] => some s

/-- Whether a comment that ends the line of a token is kept for the next one. -/
def keepsAfter (previous : Option Token) : Bool :=
  previous = some (.punctuation "=") || previous = some (.punctuation "(")

def read? (fuel : Nat) (previous : Option Token) (cs : List Char) : Option (Gap × Nat) := do
  let atStart := previous.isNone
  let s ← scan (keepsAfter previous) fuel ⟨⟨atStart, [], false, false, []⟩, atStart, 0⟩ cs
  return (s.gap, s.width)

/-- The comments to be written; those that mark calls and functions are written with them. -/
def remarks (g : Gap) : List Comment :=
  g.comments.filter fun c => !c.marksPure && !c.marksInert

end Gap
end SiteCompiler.Script
