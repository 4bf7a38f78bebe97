import TagScript.Decimal.Layout

/-!
# Words and literals

Integers of the language are words of 64 bits. A digit string that no word holds stands for the
nearest real instead.
-/

namespace TagScript

/-- The word that holds a whole number, if one does. -/
def wordOf? (n : Int) : Option Int64 :=
  if Int64.minValue.toInt ≤ n ∧ n ≤ Int64.maxValue.toInt then some (Int64.ofInt n) else none

/-- A number as a program writes it without a point. -/
inductive Number where
  | integer (n : Int64)
  | real (x : Float)
deriving DecidableEq

namespace Number

/-- The number that a digit string stands for. -/
def ofDigits (digits : List Char) : Number :=
  let n := Nat.ofDigitChars 10 digits 0
  match wordOf? n with
  | some word => .integer word
  | none => .real (realOfInt n)

end Number

/-- A constant written in a program. -/
inductive Literal where
  | integer (n : Int64)
  | real (x : Float)
  | text (content : String)
  | bool (b : Bool)
deriving DecidableEq

namespace Literal

def ofNumber : Number → Literal
  | .integer n => .integer n
  | .real x => .real x

end Literal

end TagScript
