namespace SiteCompiler.Decimal

/-- A positive number `significand * 2 ^ exponent`, and whether the number below it is only half as
far away as the one above. -/
structure Binary where
  significand : Nat
  exponent : Int
  closeBelow : Bool

def Binary.ofBits (bits : Nat) : Binary :=
  let fraction : Nat := bits % Nat.pow 2 52
  let biased : Nat := bits / Nat.pow 2 52 % Nat.pow 2 11
  if biased = 0 then ⟨fraction, -1074, false⟩
  else ⟨Nat.pow 2 52 + fraction, (biased : Int) - 1075, fraction = 0 ∧ biased > 1⟩

structure Numeral where
  digits : Nat
  exponent : Int
deriving DecidableEq, Repr

/-- The neighbour of `b` among the multiples of `10 ^ e` that reads back as `b`: of two the nearer,
of two equally near the even one. -/
def onGrid? (b : Binary) (e : Int) : Option Numeral :=
  let scale := Nat.pow 2 (b.exponent - 2).toNat * Nat.pow 10 (-e).toNat
  let unit := Nat.pow 2 (2 - b.exponent).toNat * Nat.pow 10 e.toNat
  let value := 4 * b.significand * scale
  let low := (4 * b.significand - if b.closeBelow then 1 else 2) * scale
  let high := (4 * b.significand + 2) * scale
  let ends := b.significand % 2 = 0
  let reads (c : Nat) : Bool :=
    0 < c && (if ends then low ≤ c * unit && c * unit ≤ high else low < c * unit && c * unit < high)
  let c := value / unit
  let below := value - c * unit
  let above := (c + 1) * unit - value
  match reads c, reads (c + 1) with
  | true, true => some ⟨if below < above ∨ (below = above ∧ c % 2 = 0) then c else c + 1, e⟩
  | true, false => some ⟨c, e⟩
  | false, true => some ⟨c + 1, e⟩
  | false, false => none

/-- The first hit on grids that grow finer, from above every finite number to below all of them. -/
def shortest (b : Binary) : Numeral :=
  ((List.range 660).findSome? fun i => onGrid? b (310 - Int.ofNat i)).getD ⟨0, 0⟩

end SiteCompiler.Decimal
