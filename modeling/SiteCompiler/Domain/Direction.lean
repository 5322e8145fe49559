import SiteCompiler.Text.Category

namespace SiteCompiler.Domain

open Text

inductive Direction where
  | left
  | right
  | arabicLetter
  | arabicNumber
  | europeanNumber
  | separator
  | terminator
  | commonSeparator
  | nonspacing
  | boundary
  | neutral
deriving DecidableEq, Repr

namespace Direction

def rightLetters : CodePoints := .ofRows
  ["5be 5c0 5c3 5c6 5d0-5f4 7c0-7ea 7f4-7f5 7fa 7fe-815 81a 824 828 830-858 85e 10800-1091b",
   "10920-10a00 10a10-10a35 10a40-10ae4 10aeb-10b35 10b40-10cff 10d40-10d4f 10d6e-10d8f",
   "10e80-10ea9 10ead-10eb1 10f00-10f27 10f70-10f81 10f86-10ff6 1e800-1e8cf 1e922-1e943",
   "1e94b-1e95f"]

def arabicLetters : CodePoints := .ofRows
  ["608 60b 60d 61b-64a 66d-66f 671-6d5 6e5-6e6 6ee-6ef 6fa-710 712-72f 74d-7a5 7b1 860-88f",
   "8a0-8c9 fbb2-fbd2 fd90-fdce fe73 10d00-10d23 10ec2-10ed8 10f30-10f45 10f51-10f59 1ec71-1ed3d"]

def arabicNumbers : CodePoints := .ofRows
  ["660-669 66b-66c 10d30-10d39 10e60-10e7e"]

def europeanNumbers : CodePoints := .ofRows
  ["30-39 6f0-6f9 102e1-102fb"]

def separators : CodePoints := .ofRows
  ["2b 2d 2212"]

def commonSeparators : CodePoints := .ofRows
  ["2c 2e-2f 3a 60c 2044"]

def terminators : CodePoints := .ofRows
  ["23-25 a2-a5 b0-b1 58f 609-60a 66a 9f2-9f3 9fb af1 bf9 e3f 17db 2030-2032 20a0-20c1 212e 2213",
   "a838-a839 11fdd-11fe0 1e2ff"]

def boundaries : CodePoints := .ofRows
  ["0-8 e-1b 7f 200c-200d"]

def neutrals : CodePoints := .ofRows
  ["21-22 26-2a 3b-60 7b-7e a1 a6-ae b6-d7 f7 2b9-2ba 2c2-2cf 2d2-2ed 2ef-2ff 375 3f6 58a-58e",
   "606-607 60e-60f 6de 6e9 7f6-7f9 bf3-bf8 bfa c78-c7e f3a-f3d 1390-1399 1400 169b-169c 17f0-180a",
   "1940-1945 19de-19ff 2010-2027 2035-2043 2045-205e 2104-2129 213a-214d 218a-2211 2214-2335",
   "237b-2394 2396-2426 2440-26ab 26ad-27ff 2900-2b95 2b97-2bff 2ce5-2cea 2cf9-2cff 2e00-3004",
   "3008-3020 3030 3037 303d-303f 30a0 30fb 31c0-31e3 4dc0-4dff a490-a4c6 a60d-a60f a673 a67e-a67f",
   "a700-a721 a788 a828-a82b a874-a877 ab6a-ab6b fd3e-fd4f fdcf-fdff fe45-fe46 10101 10140-1018c",
   "10190-101a0 1091f 10b39-10b3f 11052-11065 11660-1166c 11fd5-11fdc 11fe1-11ff1 16fe2",
   "1d1e9-1d241 1d245 1d300-1d356 1eef0-1f12f 1f16d-1f16f 1f1ad 1f260-1f6d7 1f6dc-1f776",
   "1f77b-1f8b1 1f900-1fa53 1fa60-1fa88 1fa90-1fabd 1fabf-1fac5 1face-1fadb 1fae0-1fae8",
   "1faf0-1fbca"]

def isNonspacing (c : Char) : Bool :=
  Category.nonspacingMarks.contains c || Category.enclosingMarks.contains c

def ofChar (c : Char) : Direction :=
  if 'a' ≤ c && c ≤ 'z' then left
  else if europeanNumbers.contains c then europeanNumber
  else if isNonspacing c then nonspacing
  else if rightLetters.contains c then right
  else if arabicLetters.contains c then arabicLetter
  else if arabicNumbers.contains c then arabicNumber
  else if separators.contains c then separator
  else if commonSeparators.contains c then commonSeparator
  else if terminators.contains c then terminator
  else if boundaries.contains c then boundary
  else if neutrals.contains c then neutral
  else left

/-- Whether a character makes its name one with text from the right to the left. -/
def isRightward (d : Direction) : Bool :=
  d = right || d = arabicLetter || d = arabicNumber

def isWeak (d : Direction) : Bool :=
  [europeanNumber, separator, commonSeparator, terminator, neutral, boundary, nonspacing].contains d

def withoutTrailing (ds : List Direction) : List Direction :=
  (ds.reverse.dropWhile (· = nonspacing)).reverse

def isRightLabel (ds : List Direction) : Bool :=
  ds.all (fun d => d.isRightward || d.isWeak)
    && (withoutTrailing ds).getLast?.any (fun d => d.isRightward || d = europeanNumber)
    && !(ds.contains europeanNumber && ds.contains arabicNumber)

def isLeftLabel (ds : List Direction) : Bool :=
  ds.all (fun d => d = left || d.isWeak)
    && (withoutTrailing ds).getLast?.any (fun d => d = left || d = europeanNumber)

/-- Whether a label keeps to one direction, which its first character gives. -/
def isConsistent (ds : List Direction) : Bool :=
  match ds.head? with
  | none => true
  | some first =>
    if first = left then isLeftLabel ds
    else if first = right || first = arabicLetter then isRightLabel ds
    else false

end Direction

def directionsAgree (labels : List (List Char)) : Bool :=
  let directions := labels.map (·.map Direction.ofChar)
  !directions.any (·.any Direction.isRightward) || directions.all Direction.isConsistent

end SiteCompiler.Domain
