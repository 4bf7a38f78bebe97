import TagScript.Decimal.Basic

/-!
# Reading numerals

The numeral grammar: an optional sign, digits with an optional point (at least one digit on either
side of it), and an optional exponent.
-/

namespace TagScript

/-- A sign and the text after it; a text without a sign is positive. -/
def splitSign : List Char → Bool × List Char
  | '-' :: rest => (true, rest)
  | '+' :: rest => (false, rest)
  | rest => (false, rest)

/-- The size of an exponent. Digits count until the number is `65536` or more; those after that are
read but change nothing. -/
def exponentSize (digits : List Char) : Nat :=
  digits.foldl (fun n c => if n < 65536 then 10 * n + (c.toNat - 48) else n) 0

/-- The exponent part of a numeral, which may be absent. -/
def readExponent : List Char → Option Int
  | [] => some 0
  | mark :: rest =>
    let (negative, digits) := splitSign rest
    if (mark == 'e' || mark == 'E') && !digits.isEmpty && digits.all Char.isDigit then
      let size : Int := exponentSize digits
      some (if negative then -size else size)
    else none

namespace Decimal

/-- The decimal with these digits before and after the point. -/
def ofParts (whole fraction : List Char) (exponent : Int) : Decimal :=
  ⟨Nat.ofDigitChars 10 (whole ++ fraction) 0, exponent - fraction.length⟩

/-- Reads an unsigned numeral. -/
def read? (text : List Char) : Option Decimal :=
  let (whole, rest) := text.span Char.isDigit
  let (fraction, rest) := match rest with
    | '.' :: rest => rest.span Char.isDigit
    | rest => ([], rest)
  if whole.isEmpty && fraction.isEmpty then none
  else (readExponent rest).map (ofParts whole fraction)

end Decimal

/-- The real that a signed numeral stands for. -/
def readReal? (text : List Char) : Option Float :=
  let (negative, rest) := splitSign text
  (Decimal.read? rest).map fun d => if negative then -d.toFloat else d.toFloat

end TagScript
