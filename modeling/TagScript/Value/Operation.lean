import TagScript.Operator
import TagScript.Value.Basic

/-!
# Operations on values

What the operators do to values. Integers stay integers for as long as the exact result is a word;
otherwise an operation goes on with reals, so no result ever wraps around.
-/

namespace TagScript.Value

/-- An operator before its operand; not every operator has a meaning there. -/
def unary (op : Operator) (v : Value) : Option Value :=
  match op, v with
  | .minus, integer n =>
    if n = 0 then some (real (-0.0))
    else some (((wordOf? (-n.toInt)).map integer).getD (real (-v.number)))
  | .minus, v => some (real (-v.number))
  | .plus, integer n => some (integer n)
  | .plus, real x => some (real x)
  | .plus, v => some (real v.number)
  | .not, v => some (bool !v.isTruthy)
  | _, _ => none

/-- The exact result of an operation on integers, if it is an integer that a word holds. -/
def exactArithmetic (op : Operator) (a b : Int64) : Option Int64 :=
  match op with
  | .plus => wordOf? (a.toInt + b.toInt)
  | .minus => wordOf? (a.toInt - b.toInt)
  | .star => wordOf? (a.toInt * b.toInt)
  | .slash =>
    if b ≠ 0 ∧ a.toInt.tmod b.toInt = 0 then wordOf? (a.toInt.tdiv b.toInt) else none
  | _ => none

/-- An operation on reals; what has no rule gives no number. -/
def realArithmetic (op : Operator) (x y : Float) : Float :=
  match op with
  | .plus => x + y
  | .minus => x - y
  | .star => x * y
  | .slash => x / y
  | _ => nan

/-- Sum, difference, product and quotient. A sum with a text is their concatenation. -/
def arithmetic (op : Operator) (a b : Value) : Value :=
  if op = .plus ∧ (a.isText ∨ b.isText) then text (a.display ++ b.display)
  else
    let word := match a, b with
      | integer m, integer n => exactArithmetic op m n
      | _, _ => none
    match word with
    | some n => integer n
    | none => real (realArithmetic op a.number b.number)

/-- The exact power of an integer, if the exponent is from zero up to but not including `2 ^ 32` and
a word holds the result. A base other than `-1`, `0` and `1` outgrows every word by its 64th
power. -/
def exactPower (base exponent : Int64) : Option Int64 :=
  let b := base.toInt
  let e := exponent.toInt.toNat
  if exponent.toInt < 0 ∨ UInt32.size ≤ e then none
  else if b.natAbs ≤ 1 then wordOf? (if e = 0 then 1 else if e % 2 = 0 then b * b else b)
  else if 64 ≤ e then none
  else wordOf? (b.pow e)

/-- The distance from one to the next larger real. -/
def unitStep : Float := 2.220446049250313e-16

/-- The power of a real. The limits of `1` and `-1` at infinity are no numbers. -/
def realPower (base exponent : Float) : Float :=
  if exponent.isNaN || (exponent.isInf && (base.abs - 1.0).abs < unitStep) then nan
  else base.pow exponent

def power (a b : Value) : Value :=
  let word := match a, b with
    | integer m, integer n => exactPower m n
    | _, _ => none
  match word with
  | some n => integer n
  | none => real (realPower a.number b.number)

/-- How two reals relate, if both are numbers. -/
def relateReals (x y : Float) : Option Ordering :=
  if x < y then some .lt
  else if x == y then some .eq
  else if y < x then some .gt
  else none

/-- How two values relate: texts by their characters, integers exactly, all else by number. -/
def relate : Value → Value → Option Ordering
  | text a, text b => some (compare a b)
  | integer m, integer n => some (compare m.toInt n.toInt)
  | a, b => relateReals a.number b.number

/-- Equality and order; an operator that compares nothing never holds. -/
def comparison (op : Operator) (a b : Value) : Bool :=
  match op with
  | .equal => a.looseEq b
  | .notEqual => !a.looseEq b
  | .less => (a.relate b).any (· == .lt)
  | .greater => (a.relate b).any (· == .gt)
  | .lessEqual => (a.relate b).any (· != .gt)
  | .greaterEqual => (a.relate b).any (· != .lt)
  | _ => false

/-- An operator between two operands; two operators have no meaning there. -/
def binary (op : Operator) (a b : Value) : Option Value :=
  match op with
  | .plus | .minus | .star | .slash => some (arithmetic op a b)
  | .power => some (power a b)
  | .equal | .notEqual | .less | .greater | .lessEqual | .greaterEqual =>
    some (bool (comparison op a b))
  | .not | .assign => none

end TagScript.Value
