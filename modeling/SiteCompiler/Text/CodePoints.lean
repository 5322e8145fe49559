import SiteCompiler.Text.Cutting

namespace SiteCompiler.Text

/-- A set of code points: those that lie in one of the ranges, ends included. -/
structure CodePoints where
  ranges : List (Nat × Nat)
deriving DecidableEq, Repr

namespace CodePoints

def hexDigit (c : Char) : Nat :=
  if c.isDigit then c.toNat - 48 else c.toNat - 87

def hexNumber (digits : List Char) : Nat :=
  digits.foldl (fun n c => n * 16 + hexDigit c) 0

def words (rows : List String) : List (List Char) :=
  rows.flatMap fun row => row.toList.splitOn ' '

def range (word : List Char) : Nat × Nat :=
  match word.splitOn '-' with
  | [first, last] => (hexNumber first, hexNumber last)
  | _ => (hexNumber word, hexNumber word)

def ofRows (rows : List String) : CodePoints :=
  ⟨(words rows).map range⟩

def contains (s : CodePoints) (c : Char) : Bool :=
  s.ranges.any fun (first, last) => first ≤ c.toNat && c.toNat ≤ last

end CodePoints
end SiteCompiler.Text
