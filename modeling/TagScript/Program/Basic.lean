import TagScript.Literal
import TagScript.Operator
import TagScript.TypeWord

/-!
# Programs

Expressions, statements, blocks and programs. Every node carries the line of the token it is named
by: the operator of an operation, the first token of a statement, the opening brace of a block.
-/

namespace TagScript

inductive Expr where
  | literal (value : Literal) (line : Nat)
  | name (id : String) (line : Nat)
  | unary (op : Operator) (operand : Expr) (line : Nat)
  | binary (left : Expr) (op : Operator) (right : Expr) (line : Nat)
  | call (callee : String) (arguments : List Expr) (line : Nat)

/-- A parameter. Its type is read but never checked. -/
structure Param where
  name : String
  type : TypeWord
deriving DecidableEq, Repr

mutual

inductive Stmt where
  | declare (type : TypeWord) (name : String) (init : Expr) (line : Nat)
  | set (name : String) (value : Expr) (line : Nat)
  | define (name : String) (result : TypeWord) (params : List Param) (body : Block) (line : Nat)
  /-- A block that runs if the test holds, and perhaps another that runs if it does not. -/
  | when (test : Expr) (body : Block) (alternate : Option Block) (line : Nat)
  /-- A block that no test governs. -/
  | otherwise (body : Block) (line : Nat)
  | giveBack (value : Expr) (line : Nat)
  | expression (value : Expr) (line : Nat)
  | fetch (path : String) (line : Nat)
  | launch (names : List String) (line : Nat)

inductive Block where
  | mk (statements : List Stmt) (line : Nat)

end

namespace Block

def statements : Block → List Stmt
  | mk statements _ => statements

def line : Block → Nat
  | mk _ line => line

end Block

structure Program where
  body : List Stmt

end TagScript
