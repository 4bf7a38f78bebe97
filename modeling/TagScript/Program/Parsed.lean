import TagScript.Token.Basic

/-!
# Reading off a list of lexemes

`Parsed α n` is what comes of reading an `α` off a list of `n` lexemes: a node and the lexemes after
it, of which there are fewer than `n`, or an error and the lexemes after the one at fault. The bound
is what lets readers call each other on what is left.
-/

namespace TagScript

/-- What a reader was looking for when it failed. -/
inductive Expectation where
  | expression
  | closeGroup
  | afterArgument
  | statement
  | declaredName
  | declaredValue
  | setName
  | setValue
  | resultType
  | functionName
  | openParams
  | afterParam
  | paramName
  | paramColon
  | paramType
  | openTest
  | closeTest
  | modulePath
  | exportName
  | nextExportName
  | openBlock
  | closeBlock
deriving DecidableEq, Repr

namespace Expectation

def text : Expectation → String
  | expression => "expression"
  | closeGroup => "')' after expression"
  | afterArgument => "',' or ')' after call argument"
  | statement => "statement"
  | declaredName => "variable name after type"
  | declaredValue => "'=' after variable name"
  | setName => "variable name after 'set'"
  | setValue => "'=' after variable name in set statement"
  | resultType => "return type after 'define'"
  | functionName => "function name after return type"
  | openParams => "'(' after function name"
  | afterParam => "',' or ')' in parameter list"
  | paramName => "parameter name"
  | paramColon => "':' after parameter name"
  | paramType => "parameter type after ':'"
  | openTest => "'(' after 'when'"
  | closeTest => "')' after condition"
  | modulePath => "module path as text"
  | exportName => "identifier after 'launch'"
  | nextExportName => "identifier after ',' in launch statement"
  | openBlock => "'\x7b' to start block"
  | closeBlock => "'\x7d' to close block"

end Expectation

inductive ParseError where
  | unexpectedToken (expected : Expectation) (found : Lexeme)
  | unexpectedEnd (expected : Expectation)
deriving DecidableEq

namespace ParseError

def message : ParseError → String
  | unexpectedToken expected found =>
    s!"Error on line {found.line}: Expected {expected.text}, but found {found.token.describe} " ++
      s!"at token {found.index}."
  | unexpectedEnd expected => s!"Error: Expected {expected.text}, but found end of input."

end ParseError

inductive Parsed (α : Type) (n : Nat) where
  | ok (node : α) (rest : List Lexeme) (fewer : rest.length < n)
  | error (cause : ParseError) (rest : List Lexeme)

namespace Parsed

variable {α β : Type} {m n : Nat}

/-- Goes on with the lexemes after a node. -/
def bind (p : Parsed α m) (f : (node : α) → (rest : List Lexeme) → rest.length < m → Parsed β n) :
    Parsed β n :=
  match p with
  | ok node rest fewer => f node rest fewer
  | error cause rest => error cause rest

/-- Changes the node, and the bound to a wider one. -/
def map (f : α → β) (p : Parsed α m) (h : m ≤ n) : Parsed β n :=
  p.bind fun node rest fewer => ok (f node) rest (Nat.lt_of_lt_of_le fewer h)

/-- The outcome without the lexemes that are left. -/
def toExcept : Parsed α n → Except ParseError α
  | ok node _ _ => .ok node
  | error cause _ => .error cause

/-- How many lexemes are left. -/
def left : Parsed α n → Nat
  | ok _ rest _ | error _ rest => rest.length

end Parsed

/-- Takes the first lexeme if `accept` makes something of its token. A refused lexeme is taken
too. -/
def take {α : Type} (accept : Token → Option α) (expected : Expectation) :
    (ts : List Lexeme) → Parsed α ts.length
  | [] => .error (.unexpectedEnd expected) []
  | l :: rest =>
    match accept l.token with
    | some a => .ok a rest (by simp)
    | none => .error (.unexpectedToken expected l) rest

/-- Takes the given token. -/
def expect (token : Token) : Expectation → (ts : List Lexeme) → Parsed Unit ts.length :=
  take fun t => if t = token then some () else none

def takeName : Expectation → (ts : List Lexeme) → Parsed String ts.length :=
  take fun
    | .identifier name => some name
    | _ => none

def takeType : Expectation → (ts : List Lexeme) → Parsed TypeWord ts.length :=
  take fun
    | .type t => some t
    | _ => none

def takeText : Expectation → (ts : List Lexeme) → Parsed String ts.length :=
  take fun
    | .text content => some content
    | _ => none

/-- Reads items up to a closing parenthesis, with a comma between each two. -/
def readItems {α : Type} (expected : Expectation) (ts : List Lexeme)
    (item : (us : List Lexeme) → us.length ≤ ts.length → Parsed α us.length) :
    Parsed (List α) ts.length :=
  (item ts (Nat.le_refl _)).bind fun first rest fewer =>
    match rest with
    | [] => .error (.unexpectedEnd expected) []
    | l :: rest' =>
      have fewer' : rest'.length < ts.length := Nat.lt_trans (Nat.lt_succ_self _) fewer
      match l.token with
      | .mark .comma =>
        (readItems expected rest' fun us h => item us (Nat.le_trans h (Nat.le_of_lt fewer'))).map
          (first :: ·) (Nat.le_of_lt fewer')
      | .mark .closeParen => .ok [first] rest' fewer'
      | _ => .error (.unexpectedToken expected l) rest'
termination_by ts.length

/-- Reads a list in parentheses after the opening one; it may be empty. -/
def readList {α : Type} (expected : Expectation) (ts : List Lexeme)
    (item : (us : List Lexeme) → us.length ≤ ts.length → Parsed α us.length) :
    Parsed (List α) ts.length :=
  match ts with
  | ⟨.mark .closeParen, _, _⟩ :: rest => .ok [] rest (by simp)
  | ts => readItems expected ts item

end TagScript
