/-!
# Operators

The operators of the language, how they are spelled, and how tightly they bind.
-/

namespace TagScript

inductive Operator where
  | plus
  | minus
  | star
  | slash
  | power
  | equal
  | notEqual
  | less
  | greater
  | lessEqual
  | greaterEqual
  | not
  | assign
deriving DecidableEq, Repr, Inhabited

namespace Operator

def all : List Operator :=
  [plus, minus, star, slash, power, equal, notEqual, less, greater, lessEqual, greaterEqual, not,
    assign]

/-- The operator as a program spells it. -/
def symbol : Operator → String
  | plus => "+"
  | minus => "-"
  | star => "*"
  | slash => "/"
  | power => "**"
  | equal => "=="
  | notEqual => "!="
  | less => "<"
  | greater => ">"
  | lessEqual => "<="
  | greaterEqual => ">="
  | not => "!"
  | assign => "="

def ofSymbol? (s : String) : Option Operator :=
  all.find? (·.symbol == s)

/-- How tightly an operator binds between two operands. The two loosest have no meaning there, but
the grammar lets them stand. -/
def precedence : Operator → Nat
  | not | assign => 0
  | equal | notEqual => 1
  | less | greater | lessEqual | greaterEqual => 2
  | plus | minus => 3
  | star | slash => 4
  | power => 5

/-- The least precedence inside the right operand: powers group to the right, all else to the
left. -/
def rightPrecedence : Operator → Nat
  | power => power.precedence
  | op => op.precedence + 1

/-- Whether the operator may stand before a single operand. -/
def isPrefixed : Operator → Bool
  | plus | minus | not => true
  | _ => false

theorem isPrefixed_iff {op : Operator} :
    op.isPrefixed = true ↔ op = plus ∨ op = minus ∨ op = not := by
  cases op <;> decide

/-- The operator spelled by two characters. -/
def ofPair? : Char → Char → Option Operator
  | '=', '=' => some equal
  | '!', '=' => some notEqual
  | '>', '=' => some greaterEqual
  | '<', '=' => some lessEqual
  | '*', '*' => some power
  | _, _ => none

/-- The operator spelled by one character. -/
def ofChar? : Char → Option Operator
  | '=' => some assign
  | '>' => some greater
  | '<' => some less
  | '+' => some plus
  | '-' => some minus
  | '*' => some star
  | '/' => some slash
  | '!' => some not
  | _ => none

end Operator

end TagScript
