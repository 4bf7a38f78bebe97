/-!
# Digits in a base

Digits up to sixteen, in either case.
-/

namespace TagScript.Text

/-- The value of a digit. -/
def digitValue? (c : Char) : Option Nat :=
  if c.isDigit then some (c.toNat - 48)
  else if 'a' ≤ c ∧ c ≤ 'f' then some (c.toNat - 87)
  else if 'A' ≤ c ∧ c ≤ 'F' then some (c.toNat - 55)
  else none

/-- The digit for a value below sixteen, in upper case. -/
def digitOf (n : Nat) : Char :=
  (Nat.digitChar n).toUpper

/-- The number that digits stand for in a base, if all characters are digits of that base. -/
def readDigits? (base : Nat) (digits : List Char) : Option Nat :=
  digits.foldl (fun n? c => n?.bind fun n =>
    (digitValue? c).bind fun d => if d < base then some (base * n + d) else none) (some 0)

end TagScript.Text
