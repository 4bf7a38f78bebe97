import TagScript.Decimal.Basic

/-!
# The shortest decimal of a real

Of all decimals that read back as a given positive real, `shortest` takes one with the fewest
digits, and of those the nearest to the real. A decimal is only ever chosen after it has been read
back, so the result reads back by construction; the exact decimal expansion stands behind the
search for a real that no decimal of up to seventeen digits reads back to.
-/

namespace TagScript.Decimal

/-- The neighbours of `num / den` on the grid of multiples of `10 ^ grid`: the one below, the one
above, and whether the one below is the nearer (a tie goes up). -/
def neighbours (num den : Nat) (grid : Int) : Decimal × Decimal × Bool :=
  let (n, d) :=
    if 0 ≤ grid then (num, den * Nat.pow 10 grid.toNat)
    else (num * Nat.pow 10 (-grid).toNat, den)
  (trim ⟨n / d, grid⟩, trim ⟨n / d + 1, grid⟩, decide (2 * (n % d) < d))

/-- The nearer of the two neighbours on a grid among those that read back as `x`. -/
def onGrid (x : Float) (num den : Nat) (grid : Int) : Option Decimal :=
  let (low, high, lowNearer) := neighbours num den grid
  match decide (low.toFloat = x), decide (high.toFloat = x) with
  | true, true => some (if lowNearer then low else high)
  | true, false => some low
  | false, true => some high
  | false, false => none

/-- A power of ten at or just below `num / den`, as its exponent. -/
def magnitude (num den : Nat) : Int :=
  if den ≤ num then (Nat.toDigits 10 (num / den)).length - 1
  else -((Nat.toDigits 10 (den / num)).length : Int)

/-- All digits of `mantissa · 2 ^ exponent`. -/
def expansion (mantissa : Nat) (exponent : Int) : Decimal :=
  if 0 ≤ exponent then trim ⟨mantissa * Nat.pow 2 exponent.toNat, 0⟩
  else trim ⟨mantissa * Nat.pow 5 (-exponent).toNat, exponent⟩

/-- The shortest decimal that reads back as `x`, which is `mantissa · 2 ^ exponent`. -/
def shortest (x : Float) (mantissa : Nat) (exponent : Int) : Decimal :=
  let num := if 0 ≤ exponent then mantissa * Nat.pow 2 exponent.toNat else mantissa
  let den := if 0 ≤ exponent then 1 else Nat.pow 2 (-exponent).toNat
  let top := magnitude num den
  ((List.range 17).findSome? fun (n : Nat) => onGrid x num den (top - n)).getD
    (expansion mantissa exponent)

end TagScript.Decimal
