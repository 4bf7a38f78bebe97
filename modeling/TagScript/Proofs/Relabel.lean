import TagScript.Program.Statement

/-!
# Programs up to lines and signature types

`Relabeling` changes what a program carries only for messages and for its reader: the lines of its
nodes, and the types of results and parameters in function declarations. The type of a declared
variable is none of these, since it becomes the tag of the variable. Two programs are equal up to
lines, or up to lines and types, if one relabeling that forgets these makes them equal.
-/

namespace TagScript

/-- What to make of each line and of each type in a signature. -/
structure Relabeling where
  line : Nat → Nat
  type : TypeWord → TypeWord

namespace Relabeling

/-- Changes lines only. -/
def lines (φ : Nat → Nat) : Relabeling :=
  ⟨φ, id⟩

/-- Puts all on one line. -/
def oneLine : Relabeling :=
  lines fun _ => 0

/-- Forgets lines and types. -/
def forget : Relabeling :=
  ⟨fun _ => 0, fun _ => .void⟩

end Relabeling

mutual

def Expr.relabel (r : Relabeling) : Expr → Expr
  | .literal value line => .literal value (r.line line)
  | .name id line => .name id (r.line line)
  | .unary op operand line => .unary op (operand.relabel r) (r.line line)
  | .binary left op right line => .binary (left.relabel r) op (right.relabel r) (r.line line)
  | .call callee arguments line => .call callee (Expr.relabelAll r arguments) (r.line line)

def Expr.relabelAll (r : Relabeling) : List Expr → List Expr
  | [] => []
  | e :: rest => e.relabel r :: Expr.relabelAll r rest

end

def Param.relabel (r : Relabeling) (p : Param) : Param :=
  { p with type := r.type p.type }

mutual

def Stmt.relabel (r : Relabeling) : Stmt → Stmt
  | .declare type name init line => .declare type name (init.relabel r) (r.line line)
  | .set name value line => .set name (value.relabel r) (r.line line)
  | .define name result params body line =>
    .define name (r.type result) (params.map (·.relabel r)) (body.relabel r) (r.line line)
  | .when test body none line => .when (test.relabel r) (body.relabel r) none (r.line line)
  | .when test body (some alternate) line =>
    .when (test.relabel r) (body.relabel r) (some (alternate.relabel r)) (r.line line)
  | .otherwise body line => .otherwise (body.relabel r) (r.line line)
  | .giveBack value line => .giveBack (value.relabel r) (r.line line)
  | .expression value line => .expression (value.relabel r) (r.line line)
  | .fetch path line => .fetch path (r.line line)
  | .launch names line => .launch names (r.line line)

def Block.relabel (r : Relabeling) : Block → Block
  | .mk statements line => .mk (Stmt.relabelAll r statements) (r.line line)

def Stmt.relabelAll (r : Relabeling) : List Stmt → List Stmt
  | [] => []
  | s :: rest => s.relabel r :: Stmt.relabelAll r rest

end

def Program.relabel (r : Relabeling) (p : Program) : Program :=
  ⟨Stmt.relabelAll r p.body⟩

/-! ### Nothing relabeled -/

@[simp] theorem Relabeling.line_lines (φ : Nat → Nat) (line : Nat) : (lines φ).line line = φ line :=
  rfl

@[simp] theorem Relabeling.type_lines (φ : Nat → Nat) (type : TypeWord) :
    (lines φ).type type = type :=
  rfl

@[simp] theorem Param.relabel_lines (φ : Nat → Nat) (p : Param) : p.relabel (.lines φ) = p :=
  rfl

mutual

@[simp] theorem Expr.relabel_id (e : Expr) : e.relabel (.lines id) = e := by
  match e with
  | .literal .. | .name .. => rfl
  | .unary _ operand _ => simp [Expr.relabel, operand.relabel_id]
  | .binary left _ right _ => simp [Expr.relabel, left.relabel_id, right.relabel_id]
  | .call _ arguments _ => simp [Expr.relabel, Expr.relabelAll_id arguments]

@[simp] theorem Expr.relabelAll_id (es : List Expr) : Expr.relabelAll (.lines id) es = es := by
  match es with
  | [] => rfl
  | e :: rest => rw [Expr.relabelAll, e.relabel_id, Expr.relabelAll_id rest]

end

mutual

@[simp] theorem Stmt.relabel_id (s : Stmt) : s.relabel (.lines id) = s := by
  match s with
  | .declare .. | .set .. | .giveBack .. | .expression .. => simp [Stmt.relabel]
  | .define _ _ _ body _ => simp [Stmt.relabel, body.relabel_id]
  | .when _ body none _ => simp [Stmt.relabel, body.relabel_id]
  | .when _ body (some alternate) _ =>
    simp [Stmt.relabel, body.relabel_id, alternate.relabel_id]
  | .otherwise body _ => simp [Stmt.relabel, body.relabel_id]
  | .fetch .. | .launch .. => rfl

@[simp] theorem Block.relabel_id (b : Block) : b.relabel (.lines id) = b := by
  match b with
  | .mk statements _ => simp [Block.relabel, Stmt.relabelAll_id statements]

@[simp] theorem Stmt.relabelAll_id (ss : List Stmt) : Stmt.relabelAll (.lines id) ss = ss := by
  match ss with
  | [] => rfl
  | s :: rest => rw [Stmt.relabelAll, s.relabel_id, Stmt.relabelAll_id rest]

end

/-! ### Lexemes -/

/-- A lexeme on another line. -/
def Lexeme.reline (φ : Nat → Nat) (l : Lexeme) : Lexeme :=
  { l with line := φ l.line }

def relineAll (φ : Nat → Nat) (ts : List Lexeme) : List Lexeme :=
  ts.map (·.reline φ)

@[simp] theorem Lexeme.token_reline (φ : Nat → Nat) (l : Lexeme) : (l.reline φ).token = l.token :=
  rfl

@[simp] theorem relineAll_nil (φ : Nat → Nat) : relineAll φ [] = [] :=
  rfl

@[simp] theorem relineAll_cons (φ : Nat → Nat) (l : Lexeme) (ts : List Lexeme) :
    relineAll φ (l :: ts) = l.reline φ :: relineAll φ ts :=
  rfl

@[simp] theorem relineAll_append (φ : Nat → Nat) (ts us : List Lexeme) :
    relineAll φ (ts ++ us) = relineAll φ ts ++ relineAll φ us :=
  List.map_append

@[simp] theorem relineAll_id (ts : List Lexeme) : relineAll id ts = ts :=
  List.map_id ts

end TagScript
