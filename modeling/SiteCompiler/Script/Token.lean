import SiteCompiler.Json.Document
import SiteCompiler.Script.Comment
import SiteCompiler.Script.Points
import SiteCompiler.Text.Letter

namespace SiteCompiler.Script

inductive Token where
  | word (text : String)
  /-- A word in which some character is escaped, so that it is no keyword. -/
  | escapedWord (text : String)
  | privateName (text : String)
  | punctuation (text : String)
  | number (text : String)
  /-- A string as it is written between its quotes, and its value. -/
  | string (raw : String) (value : Points)
  /-- A stretch of a template between its delimiters, and whether the template ends with it. -/
  | template (text : String) (isLast : Bool)
  | regex (text : String)
  | finish
deriving DecidableEq, Repr, Inhabited

namespace Token

def isBlank (c : Char) : Bool :=
  c = ' ' || c = '\t' || c = '\x0b' || c = '\x0c' || c = '\u0085' || c = '\u00a0' || c = '\u1680'
    || ('\u2000' ≤ c && c ≤ '\u200b') || c = '\u202f' || c = '\u205f' || c = '\u3000'
    || c = '\ufeff'

def isNameStart (c : Char) : Bool :=
  c.isAlpha || c = '_' || c = '$' || (127 < c.toNat && Text.Letter.startsIdentifier c)

def isNamePart (c : Char) : Bool :=
  isNameStart c || c.isDigit || (127 < c.toNat && Text.Letter.continuesIdentifier c)

def startsWith (condition : Char → Bool) (cs : List Char) : Bool :=
  (cs.head?.map condition).getD false

def punctuationMarks : List (List Char) :=
  [">>>=", "...", "===", "!==", "**=", "<<=", ">>=", ">>>", "&&=", "||=", "??=", "=>", "==", "!=",
    "<=", ">=", "&&", "||", "??", "?.", "++", "--", "+=", "-=", "*=", "/=", "%=", "&=", "|=", "^=",
    "<<", ">>", "**", "\x7b", "\x7d", "(", ")", "[", "]", ".", ";", ",", "<", ">", "+", "-", "*",
    "/", "%", "&", "|", "^", "!", "~", "?", ":", "=", "@"].map String.toList

def readPunctuation? (cs : List Char) : Option (Token × Nat) :=
  match cs with
  | '?' :: '.' :: d :: _ =>
    if d.isDigit then some (.punctuation "?", 1) else some (.punctuation "?.", 2)
  | _ => do
    let mark ← punctuationMarks.find? (·.isPrefixOf cs)
    return (.punctuation (.ofList mark), mark.length)

/-! ### Escapes

The functions below read the text behind a backslash: what it stands for, and its width. -/

def bracedPoint? : Option Nat → List Char → Option (Nat × Nat)
  | _, [] => none
  | some n, '\x7d' :: _ => if n < 0x110000 then some (n, 1) else none
  | n?, c :: rest => do
    let digit ← Json.Document.hexDigit? c
    let (n, width) ← bracedPoint? (some (min (n?.getD 0 * 16 + digit) 0x110000)) rest
    return (n, width + 1)

def numberedPoint? (cs : List Char) : Option (Nat × Nat) :=
  match cs with
  | 'u' :: '\x7b' :: rest => do
    let (n, width) ← bracedPoint? none rest
    return (n, width + 2)
  | 'u' :: a :: b :: c :: d :: _ => do return (← Json.Document.hexUnit? a b c d, 5)
  | _ => none

def numberedUnit? (cs : List Char) : Option Nat :=
  match cs with
  | 'u' :: a :: b :: c :: d :: _ => Json.Document.hexUnit? a b c d
  | _ => none

def pairedPoint? (cs : List Char) : Option Nat := do
  let high ← numberedUnit? cs
  let '\\' :: rest := cs.drop 5 | none
  let low ← numberedUnit? rest
  if Points.isHighSurrogate high && Points.isLowSurrogate low then return Points.ofPair high low
  else none

def isOctal (c : Char) : Bool :=
  '0' ≤ c && c ≤ '7'

def octalDigits (cs : List Char) : List Char :=
  let limit := if startsWith (· ≤ '3') cs then 3 else 2
  (cs.take limit).takeWhile isOctal

def octalValue (digits : List Char) : Nat :=
  digits.foldl (fun n c => n * 8 + (c.toNat - 48)) 0

/-- What a one-letter escape stands for; other letters stand for themselves. -/
def escaped (c : Char) : Char :=
  match c with
  | 'b' => '\x08'
  | 't' => '\t'
  | 'n' => '\n'
  | 'v' => '\x0b'
  | 'f' => '\x0c'
  | 'r' => '\r'
  | c => c

/-- What an escape stands for. In templates, digits have no meaning of their own but for zero. -/
def escape? (inTemplate : Bool) (cs : List Char) : Option (Points × Nat) :=
  match cs with
  | [] => none
  | '\r' :: '\n' :: _ => some ([], 2)
  | 'x' :: a :: b :: _ => do
    let a ← Json.Document.hexDigit? a
    let b ← Json.Document.hexDigit? b
    return ([a * 16 + b], 3)
  | 'x' :: _ => none
  | 'u' :: _ =>
    match pairedPoint? cs with
    | some n => some ([n], 11)
    | none => (numberedPoint? cs).map fun (n, width) => ([n], width)
  | c :: rest =>
    if Comment.isBreak c then some ([], 1)
    else if c = '0' && !startsWith Char.isDigit rest then some ([0], 1)
    else if inTemplate && c.isDigit then none
    else if isOctal c then
      let digits := octalDigits cs
      some ([octalValue digits], digits.length)
    else some ([(escaped c).toNat], 1)

/-- The value of a text with escapes; `skip` characters belong to an escape before. -/
def unescapeFrom (inTemplate : Bool) : Nat → List Char → Option Points
  | _, [] => some []
  | skip + 1, _ :: rest => unescapeFrom inTemplate skip rest
  | 0, c :: rest => do
    if c = '\\' then
      let (value, width) ← escape? inTemplate rest
      return value ++ (← unescapeFrom inTemplate width rest)
    else return c.toNat :: (← unescapeFrom inTemplate 0 rest)

def unescape? (cs : List Char) : Option Points :=
  unescapeFrom false 0 cs

/-- The value of a stretch of a template; there is none if an escape in it has no meaning. -/
def cooked? (text : String) : Option Points :=
  unescapeFrom true 0 text.toList

/-! ### Strings, templates and regular expressions -/

def cutString? (quote : Char) : List Char → Option (List Char)
  | [] => none
  | '\\' :: '\r' :: '\n' :: rest => (cutString? quote rest).map fun raw => '\\' :: '\r' :: '\n' :: raw
  | '\\' :: c :: rest => (cutString? quote rest).map fun raw => '\\' :: c :: raw
  | c :: rest =>
    if c = quote then some []
    else if c = '\n' || c = '\r' then none
    else (cutString? quote rest).map (c :: ·)

def readString? (quote : Char) (cs : List Char) : Option (Token × Nat) := do
  let raw ← cutString? quote cs
  return (.string (.ofList raw) (← unescape? raw), raw.length + 2)

/-- The text of a template up to its end or to a substitution, and whether it is the end. -/
def cutTemplate? : List Char → Option (List Char × Bool)
  | [] => none
  | '\\' :: c :: rest => (cutTemplate? rest).map fun (raw, isLast) => ('\\' :: c :: raw, isLast)
  | '$' :: '\x7b' :: _ => some ([], false)
  | c :: rest =>
    if c = '\x60' then some ([], true)
    else (cutTemplate? rest).map fun (raw, isLast) => (c :: raw, isLast)

def withLineFeeds : List Char → List Char
  | [] => []
  | '\r' :: '\n' :: rest => '\n' :: withLineFeeds rest
  | c :: rest => (if c = '\r' then '\n' else c) :: withLineFeeds rest

def readTemplate? (cs : List Char) : Option (Token × Nat) := do
  let (raw, isLast) ← cutTemplate? (cs.drop 1)
  return (.template (.ofList (withLineFeeds raw)) isLast, raw.length + if isLast then 2 else 3)

/-- The text of a regular expression up to its closing slash; in a class a slash does not close. -/
def cutRegex? (inClass : Bool) : List Char → Option (List Char)
  | [] => none
  | '\\' :: c :: rest =>
    if Comment.isBreak c then none else (cutRegex? inClass rest).map fun raw => '\\' :: c :: raw
  | c :: rest =>
    if Comment.isBreak c then none
    else if c = '/' && !inClass then some []
    else (cutRegex? (c = '[' || inClass && c ≠ ']') rest).map (c :: ·)

/-- The letters that a regular expression can end in, in the order in which they are written. -/
def regexFlags : List Char := "dgimsuvy".toList

def readRegex? (cs : List Char) : Option (Token × Nat) := do
  let pattern ← cutRegex? false (cs.drop 1)
  let flags := (cs.drop (pattern.length + 2)).takeWhile isNamePart
  let sorted := regexFlags.filter flags.contains
  let isKnown := sorted.length = flags.length && !(flags.contains 'u' && flags.contains 'v')
  if isKnown then
    return (.regex (.ofList ('/' :: pattern ++ '/' :: sorted)), pattern.length + 2 + flags.length)
  else none

/-! ### Numbers -/

def isDigitOf (radix : Char) (c : Char) : Bool :=
  match radix with
  | 'x' | 'X' => (Json.Document.hexDigit? c).isSome
  | 'o' | 'O' => isOctal c
  | _ => c = '0' || c = '1'

def digitsOf (isDigit : Char → Bool) : List Char → List Char
  | [] => []
  | c :: rest =>
    if isDigit c || c = '_' && startsWith isDigit rest then c :: digitsOf isDigit rest else []

def cutDigits? (isDigit : Char → Bool) (cs : List Char) : Option (List Char) :=
  if startsWith isDigit cs then some (digitsOf isDigit cs) else none

def cutExponent? (cs : List Char) : Option (List Char) :=
  match cs with
  | e :: sign :: rest =>
    if e = 'e' || e = 'E' then
      if sign = '+' || sign = '-' then
        (cutDigits? Char.isDigit rest).map fun digits => e :: sign :: digits
      else (cutDigits? Char.isDigit (sign :: rest)).map (e :: ·)
    else some []
  | [e] => if e = 'e' || e = 'E' then none else some []
  | [] => some []

def cutFraction? (cs : List Char) : Option (List Char) :=
  match cs with
  | '.' :: rest => if startsWith (· = '_') rest then none else some ('.' :: digitsOf Char.isDigit rest)
  | _ => some []

def cutTail? (cs : List Char) : Option (List Char) := do
  let fraction ← cutFraction? cs
  return fraction ++ (← cutExponent? (cs.drop fraction.length))

def cutDecimal? (cs : List Char) : Option (List Char) := do
  let whole := if startsWith (· = '.') cs then [] else digitsOf Char.isDigit cs
  match cs.drop whole.length with
  | 'n' :: _ => return whole ++ ['n']
  | rest => return whole ++ (← cutTail? rest)

/-- A number that starts with a zero and another digit. It counts in base eight, unless a digit does
not belong there. -/
def cutZeroLed? (cs : List Char) : Option (List Char) :=
  let digits := cs.takeWhile Char.isDigit
  if digits.all isOctal then some digits
  else (cutTail? (cs.drop digits.length)).map (digits ++ ·)

def cutNumber? (cs : List Char) : Option (List Char) :=
  match cs with
  | '0' :: radix :: rest =>
    if ['x', 'X', 'o', 'O', 'b', 'B'].contains radix then do
      let digits ← cutDigits? (isDigitOf radix) rest
      let mark := if startsWith (· = 'n') (rest.drop digits.length) then ['n'] else []
      return '0' :: radix :: digits ++ mark
    else if radix.isDigit then cutZeroLed? cs
    else if radix = '_' then none
    else cutDecimal? cs
  | cs => cutDecimal? cs

def readNumber? (cs : List Char) : Option (Token × Nat) := do
  let text ← cutNumber? cs
  if startsWith (fun c => isNamePart c || c = '\\') (cs.drop text.length) then none
  else return (.number (.ofList text), text.length)

/-! ### Words -/

structure Spelling where
  name : List Char
  width : Nat
  isEscaped : Bool

/-- The rest of a name behind its first character; `skip` characters belong to an escape before. -/
def spellingFrom : Nat → List Char → Option Spelling
  | _, [] => some ⟨[], 0, false⟩
  | skip + 1, _ :: rest => (spellingFrom skip rest).map fun s => { s with width := s.width + 1 }
  | 0, c :: rest => do
    if c = '\\' then
      let (n, width) ← numberedPoint? rest
      let s ← spellingFrom width rest
      if isNamePart (.ofNat n) then return ⟨.ofNat n :: s.name, s.width + 1, true⟩ else none
    else if isNamePart c then
      let s ← spellingFrom 0 rest
      return { s with name := c :: s.name, width := s.width + 1 }
    else return ⟨[], 0, false⟩

def spelling? (cs : List Char) : Option Spelling := do
  let s ← spellingFrom 0 cs
  if startsWith isNameStart s.name then return s else none

def readWord? (cs : List Char) : Option (Token × Nat) := do
  let s ← spelling? cs
  let text := String.ofList s.name
  return (if s.isEscaped then .escapedWord text else .word text, s.width)

def readPrivateName? (cs : List Char) : Option (Token × Nat) := do
  let s ← spelling? (cs.drop 1)
  return (.privateName (.ofList ('#' :: s.name)), s.width + 1)

def read? (cs : List Char) : Option (Token × Nat) :=
  match cs with
  | [] => some (.finish, 0)
  | c :: rest =>
    if isNameStart c || c = '\\' then readWord? cs
    else if c.isDigit || c = '.' && startsWith Char.isDigit rest then readNumber? cs
    else if c = '"' || c = '\'' then readString? c rest
    else if c = '\x60' then readTemplate? cs
    else if c = '#' then readPrivateName? cs
    else readPunctuation? cs

end Token
end SiteCompiler.Script
