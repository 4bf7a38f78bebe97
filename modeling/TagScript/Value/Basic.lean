import TagScript.Decimal.Reader
import TagScript.Literal
import TagScript.Text.Blank
import TagScript.Text.Radix

/-!
# Values

The values of the language and what each of them counts as: as text, as a number, as a truth value,
and against another value.
-/

namespace TagScript

inductive Value where
  | integer (n : Int64)
  | real (x : Float)
  | text (content : String)
  | bool (b : Bool)
  | null
deriving DecidableEq

/-- The real that is no number. -/
def nan : Float := 0.0 / 0.0

def infinity : Float := 1.0 / 0.0

/-- Reals as scripts print them: positional from `0.000001` up to but not including `10 ^ 21`, and
zero without a sign. -/
def scriptReal : RealStyle where
  positional := fun e => -6 ≤ e && e < 21
  plus := true
  point := false
  signedZero := false
  infinity := "Infinity"

/-- The number written in a base other than ten, if a word of 64 bits without sign holds it. A plus
sign may stand before the digits. -/
def readBased? (base : Nat) (text : List Char) : Option Nat :=
  let digits := match text with
    | '+' :: rest => rest
    | text => text
  if digits.isEmpty then none
  else (Text.readDigits? base digits).filter (· < UInt64.size)

/-- The number that a text counts as. Blanks around it do not matter, and an empty text counts as
zero. -/
def numberOfText (text : String) : Float :=
  let based (base : Nat) (digits : List Char) : Float :=
    ((readBased? base digits).map (realOfInt ·)).getD nan
  match Text.trim text.toList with
  | [] => 0.0
  | '0' :: 'x' :: digits | '0' :: 'X' :: digits => based 16 digits
  | '0' :: 'o' :: digits | '0' :: 'O' :: digits => based 8 digits
  | '0' :: 'b' :: digits | '0' :: 'B' :: digits => based 2 digits
  | trimmed =>
    let (negative, unsigned) := splitSign trimmed
    if unsigned = "Infinity".toList then if negative then -infinity else infinity
    else (readReal? trimmed).getD nan

namespace Value

def ofLiteral : Literal → Value
  | .integer n => integer n
  | .real x => real x
  | .text content => text content
  | .bool b => bool b

/-- A value as a script prints it. -/
def display : Value → String
  | integer n => toString n.toInt
  | real x => scriptReal.write x
  | text content => content
  | bool b => if b then "true" else "false"
  | null => "null"

/-- The number that a value counts as. -/
def number : Value → Float
  | integer n => realOfInt n.toInt
  | real x => x
  | text content => numberOfText content
  | bool b => if b then 1.0 else 0.0
  | null => 0.0

def isTruthy : Value → Bool
  | integer n => n != 0
  | real x => x != 0.0 && !x.isNaN
  | text content => !content.isEmpty
  | bool b => b
  | null => false

def isText : Value → Bool
  | text _ => true
  | _ => false

/-- Equality across kinds: null equals itself only, values of one kind are compared as they are, and
all else by number. -/
def looseEq : Value → Value → Bool
  | null, null => true
  | null, _ => false
  | _, null => false
  | text a, text b => a == b
  | bool a, bool b => a == b
  | integer a, integer b => a == b
  | a, b => a.number == b.number

end Value

/-- The status that a number stands for when a program ends with it: cut to a whole number and to
the nearest word of 32 bits. -/
def exitStatus (x : Float) : Int32 :=
  x.toInt32

end TagScript
