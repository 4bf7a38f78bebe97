/-!
# Decimals

A decimal is a whole number of digits together with a power of ten. Reading a decimal rounds it to
the nearest real, a tie going to the even neighbour. Decimals of equal value share one trimmed
form, and reading goes through that form, so how many zeros a text ends in never matters.
-/

namespace TagScript

/-- The decimal `digits · 10 ^ exponent`. -/
structure Decimal where
  digits : Nat
  exponent : Int
deriving DecidableEq, Repr

namespace Decimal

/-- Moves the zeros at the end of the digits into the exponent. Zero has the exponent zero. -/
def trim (d : Decimal) : Decimal :=
  if h : d.digits = 0 then ⟨0, 0⟩
  else if d.digits % 10 = 0 then trim ⟨d.digits / 10, d.exponent + 1⟩
  else d
termination_by d.digits
decreasing_by exact Nat.div_lt_self (Nat.pos_of_ne_zero h) (by decide)

/-- The real nearest to a decimal. It is computed by the reference model of the type, which rounds
the exact product or quotient once. -/
def toFloat (d : Decimal) : Float :=
  .ofModel (.ofScientific d.trim.digits d.trim.exponent)

/-- The exponent of the first digit in scientific form: `2` for `345.6`. -/
def leading (d : Decimal) : Int :=
  d.exponent + (Nat.toDigits 10 d.digits).length - 1

end Decimal

/-- The real nearest to a whole number. -/
def realOfInt (n : Int) : Float :=
  if n < 0 then -(⟨n.natAbs, 0⟩ : Decimal).toFloat else (⟨n.natAbs, 0⟩ : Decimal).toFloat

end TagScript
