import TagScript.Program.Basic
import TagScript.Program.Parsed

/-!
# Reading expressions

Operators are read by precedence: `readBinary least` reads operands joined by operators that bind at
least as tightly as `least`, and `climb` extends an expression to the right for as long as such an
operator follows.
-/

namespace TagScript

mutual

/-- Reads any number of operators that may stand before an operand, and the operand. -/
def readUnary (ts : List Lexeme) : Parsed Expr ts.length :=
  match ts with
  | ⟨.operator op, line, index⟩ :: rest =>
    if op.isPrefixed then (readUnary rest).map (.unary op · line) (by simp)
    else readPrimary (⟨.operator op, line, index⟩ :: rest)
  | ts => readPrimary ts
termination_by 3 * ts.length + 1

/-- Reads a literal, a name, a call or an expression in parentheses. -/
def readPrimary (ts : List Lexeme) : Parsed Expr ts.length :=
  match ts with
  | [] => .error (.unexpectedEnd .expression) []
  | l :: rest =>
    match l.token with
    | .number n => .ok (.literal (.ofNumber n) l.line) rest (by simp)
    | .float x => .ok (.literal (.real x) l.line) rest (by simp)
    | .text content => .ok (.literal (.text content) l.line) rest (by simp)
    | .bool b => .ok (.literal (.bool b) l.line) rest (by simp)
    | .identifier id =>
      match rest with
      | ⟨.mark .openParen, _, _⟩ :: rest =>
        (readList .afterArgument rest fun us _ => readBinary 0 us).map (.call id · l.line)
          (by simp; omega)
      | rest => .ok (.name id l.line) rest (by simp)
    | .mark .openParen =>
      (readBinary 0 rest).bind fun inner rest' fewer =>
        (expect (.mark .closeParen) .closeGroup rest').map (fun _ => inner) (by simp; omega)
    | _ => .error (.unexpectedToken .expression l) rest
termination_by 3 * ts.length

/-- Reads an expression whose outermost operators bind at least as tightly as `least`. -/
def readBinary (least : Nat) (ts : List Lexeme) : Parsed Expr ts.length :=
  (readUnary ts).bind fun left rest fewer => climb least left rest ts.length fewer
termination_by 3 * ts.length + 2

/-- Extends `left` by the operators that follow and bind at least as tightly as `least`. -/
def climb (least : Nat) (left : Expr) (ts : List Lexeme) (n : Nat) (h : ts.length < n) :
    Parsed Expr n :=
  match ts with
  | ⟨.operator op, line, index⟩ :: rest =>
    if least ≤ op.precedence then
      (readBinary op.rightPrecedence rest).bind fun right rest' fewer =>
        climb least (.binary left op right line) rest' n (by simp at h; omega)
    else .ok left (⟨.operator op, line, index⟩ :: rest) h
  | ts => .ok left ts h
termination_by 3 * ts.length

end

/-- Reads an expression. -/
def readExpression (ts : List Lexeme) : Parsed Expr ts.length :=
  readBinary 0 ts

end TagScript
