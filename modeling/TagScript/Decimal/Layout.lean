import TagScript.Decimal.Shortest

/-!
# Layout of reals

Positional and scientific notation of a decimal, and `RealStyle`, the choices that tell one
written form of reals from another. All styles share the digits of `Decimal.shortest`.
-/

namespace TagScript

namespace Decimal

/-- Digits without an exponent mark; a whole number has no point. -/
def positional (d : Decimal) : List Char :=
  let written := Nat.toDigits 10 d.digits
  if 0 ≤ d.exponent then written ++ List.replicate d.exponent.toNat '0'
  else
    let places := d.exponent.natAbs
    let padded := List.replicate (places + 1 - written.length) '0' ++ written
    padded.take (padded.length - places) ++ '.' :: padded.drop (padded.length - places)

/-- One digit, a point and the other digits if there are any, and the exponent after an `e`. -/
def scientific (plus : Bool) (d : Decimal) : List Char :=
  let mantissa := match Nat.toDigits 10 d.digits with
    | first :: second :: rest => first :: '.' :: second :: rest
    | single => single
  let mark := if d.leading < 0 then ['-'] else if plus then ['+'] else []
  mantissa ++ 'e' :: mark ++ Nat.toDigits 10 d.leading.natAbs

end Decimal

/-- One way to write reals. -/
structure RealStyle where
  /-- The exponents of the first digit that are written positionally. -/
  positional : Int → Bool
  /-- Whether an exponent above zero is marked with a plus sign. -/
  plus : Bool
  /-- Whether a whole number written positionally ends in `.0`. -/
  point : Bool
  /-- Whether zero shows its sign. -/
  signedZero : Bool
  infinity : String

namespace RealStyle

/-- A positive decimal in this style. -/
def decimal (s : RealStyle) (d : Decimal) : List Char :=
  if s.positional d.leading then
    if s.point && decide (0 ≤ d.exponent) then d.positional ++ ['.', '0'] else d.positional
  else d.scientific s.plus

/-- The text of a real. -/
def write (s : RealStyle) (x : Float) : String :=
  let minus : Float.Model.UnpackedFloat.Sign → String
    | .negative => "-"
    | .positive => ""
  match x.toModel.unpack with
  | .notANumber => "NaN"
  | .infinity sign => minus sign ++ s.infinity
  | .zero sign => (if s.signedZero then minus sign else "") ++ (if s.point then "0.0" else "0")
  | .finite sign m e _ => minus sign ++ String.ofList (s.decimal (Decimal.shortest x.abs m e))

end RealStyle

end TagScript
