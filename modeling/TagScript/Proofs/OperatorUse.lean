import TagScript.Proofs.ImportStack
import TagScript.Proofs.ReadStatement
import TagScript.Proofs.StoredFunctions

/-!
# Where operators stand

`Expr.uses` lists the operators of an expression with their lines and with whether they are applied
to one operand or to two, and so do the `uses` of statements, blocks and programs. What is read off
lexemes applies only such operators to one operand as may stand before it, while between two
operands any operator may stand: `Spells.readable` and `SpellsStmts.readable`.

A run comes across more operators than its program has. `Activation.Meets a₀ u` says that `u` stands
in the code of `a₀`, in a function that is stored when `a₀` starts, or in a module that `a₀` loads
on its way. `CallStack.meets` says that there are no others: what an activation on a call stack of
`a₀` applies is what `a₀` meets.
-/

namespace TagScript

open Activation

/-! ### Uses -/

/-- An operator applied to one operand or to two, and the line it is on. -/
inductive OperatorUse where
  | unary (op : Operator) (line : Nat)
  | binary (op : Operator) (line : Nat)
deriving DecidableEq

mutual

/-- The operators of an expression, wherever in it they stand. -/
def Expr.uses : Expr → List OperatorUse
  | .literal _ _ | .name _ _ => []
  | .unary op operand line => .unary op line :: operand.uses
  | .binary left op right line => .binary op line :: (left.uses ++ right.uses)
  | .call _ arguments _ => Expr.allUses arguments

def Expr.allUses : List Expr → List OperatorUse
  | [] => []
  | e :: rest => e.uses ++ Expr.allUses rest

end

mutual

/-- The operators of a statement, bodies of declared functions included. -/
def Stmt.uses : Stmt → List OperatorUse
  | .declare _ _ e _ | .set _ e _ | .giveBack e _ | .expression e _ => e.uses
  | .define _ _ _ body _ | .otherwise body _ => body.uses
  | .when test body none _ => test.uses ++ body.uses
  | .when test body (some alternate) _ => test.uses ++ (body.uses ++ alternate.uses)
  | .fetch _ _ | .launch _ _ => []

def Block.uses : Block → List OperatorUse
  | .mk statements _ => Stmt.allUses statements

def Stmt.allUses : List Stmt → List OperatorUse
  | [] => []
  | s :: rest => s.uses ++ Stmt.allUses rest

end

def Program.uses (p : Program) : List OperatorUse :=
  Stmt.allUses p.body

/-- The operators of the code that a task runs, up to the functions that it calls and the modules
that it loads. -/
def Task.uses : Task → List OperatorUse
  | expr _ e => e.uses
  | exprs _ es => Expr.allUses es
  | stmt _ s => s.uses
  | stmts _ ss => Stmt.allUses ss
  | block _ b => b.uses
  | program _ p => p.uses
  | call _ f _ => f.body.uses
  | fetch _ _ _ | load _ _ _ => []

/-! ### Uses that are read -/

/-- The grammar lets the operator stand where it does. -/
def OperatorUse.Readable : OperatorUse → Prop
  | unary op _ => op.isPrefixed = true
  | binary _ _ => True

mutual

theorem SpellsOperand.readable {e : Expr} {w : List Lexeme} (h : SpellsOperand e w) :
    ∀ u ∈ e.uses, u.Readable := by
  match h with
  | .literal _ | .name _ => exact List.forall_mem_nil _
  | .call _ _ _ hargs => exact hargs.readable
  | .group _ _ he => exact he.readable
  | .unary _ hop he => exact List.forall_mem_cons.2 ⟨hop, he.readable⟩

theorem Spells.readable {least : Nat} {e : Expr} {w : List Lexeme} (h : Spells least e w) :
    ∀ u ∈ e.uses, u.Readable := by
  match h with
  | .operand he => exact he.readable
  | .binary _ _ _ ha hb | .power _ _ ha hb =>
    exact List.forall_mem_cons.2 ⟨trivial, List.forall_mem_append.2 ⟨ha.readable, hb.readable⟩⟩

theorem Separated.readable {es : List Expr} {w : List Lexeme} (h : Separated (Spells 0) es w) :
    ∀ u ∈ Expr.allUses es, u.Readable := by
  match h with
  | .nil => exact List.forall_mem_nil _
  | .one he => exact List.forall_mem_append.2 ⟨he.readable, List.forall_mem_nil _⟩
  | .cons he _ hes => exact List.forall_mem_append.2 ⟨he.readable, hes.readable⟩

end

mutual

theorem SpellsStmt.readable {s : Stmt} {w : List Lexeme} (h : SpellsStmt s w) :
    ∀ u ∈ s.uses, u.Readable := by
  match h with
  | .define _ _ _ _ _ _ hbody => exact hbody.readable
  | .declare _ _ _ _ he | .set _ _ _ he | .giveBack _ he | .expression he => exact he.readable
  | .when _ _ htest _ hbody => exact List.forall_mem_append.2 ⟨htest.readable, hbody.readable⟩
  | .whenElse _ _ htest _ hbody _ halternate =>
    refine List.forall_mem_append.2 ⟨htest.readable, ?_⟩
    exact List.forall_mem_append.2 ⟨hbody.readable, halternate.readable⟩
  | .otherwise _ hbody => exact hbody.readable
  | .fetch _ _ | .launch _ _ _ => exact List.forall_mem_nil _

theorem SpellsBlock.readable {b : Block} {w : List Lexeme} (h : SpellsBlock b w) :
    ∀ u ∈ b.uses, u.Readable := by
  match h with
  | .mk _ hbody _ => exact hbody.readable

theorem SpellsStmts.readable {ss : List Stmt} {w : List Lexeme} (h : SpellsStmts ss w) :
    ∀ u ∈ Stmt.allUses ss, u.Readable := by
  match h with
  | .nil => exact List.forall_mem_nil _
  | .cons hs _ hss => exact List.forall_mem_append.2 ⟨hs.readable, hss.readable⟩

end

theorem readable_of_readProgram {ts : List Lexeme} {p : Program} (h : readProgram ts = .ok p) :
    ∀ u ∈ p.uses, u.Readable := by
  obtain ⟨ss, hss, rfl⟩ := map_eq_ok_iff.1 h
  exact (readStatements_sound ts hss).readable

theorem readable_of_parse {source : String} {p : Program} (h : Program.parse source = .ok p) :
    ∀ u ∈ p.uses, u.Readable := by
  unfold Program.parse at h
  split at h
  · cases h
  · split at h
    · cases h
    · next hread =>
      cases h
      exact readable_of_readProgram hread

/-- The body of the function was read off lexemes. -/
def FunctionDecl.Read (f : FunctionDecl) : Prop :=
  ∃ ts rest, (readBlock ts).Gives f.body rest

theorem FunctionDecl.Read.readable {f : FunctionDecl} (h : f.Read) :
    ∀ u ∈ f.body.uses, u.Readable := by
  obtain ⟨ts, rest, hread⟩ := h
  obtain ⟨w, -, hw⟩ := readBlock_sound ts hread
  exact hw.readable

/-! ### Uses that a run meets -/

/-- The activation loads a module on its way, and the file of the module holds the program. -/
def Activation.Loads (a₀ : Activation) (q : Program) : Prop :=
  ∃ callers d path line start source, CallStack a₀ callers ⟨.load d path line, start⟩ ∧
    a₀.start.disk.readText path = .ok source ∧ Program.parse source = .ok q

/-- The operator stands in code that the activation has to do with. -/
inductive Activation.Meets (a₀ : Activation) (u : OperatorUse) : Prop
  | own : u ∈ a₀.task.uses → Meets a₀ u
  | stored {name : String} {f : FunctionDecl} : a₀.start.functions.get? name = some (.user f) →
    u ∈ f.body.uses → Meets a₀ u
  | loaded {q : Program} : a₀.Loads q → u ∈ q.uses → Meets a₀ u

/-- Code that is called is a part of the caller's, the body of a function, or a module that is
loaded. -/
theorem Activation.Calls.uses_cases {a b : Activation} (h : a.Calls b) :
    b.task.uses ⊆ a.task.uses ∨
      (∃ name f, a.start.functions.get? name = some (.user f) ∧ b.task.uses = f.body.uses) ∨
      ∃ d path line source q, a.task = .load d path line ∧
        a.start.disk.readText path = .ok source ∧ Program.parse source = .ok q ∧
          b.task.uses = q.uses := by
  cases h with
  | operand | left | right => exact .inl (by simp [Task.uses, Expr.uses])
  | builtinArgs | callArgs => exact .inl (by simp [Task.uses, Expr.uses])
  | call hf => exact .inr (.inl ⟨_, _, hf, rfl⟩)
  | firstArg | nextArgs => exact .inl (by simp [Task.uses, Expr.allUses])
  | declare | set | giveBack | expression => exact .inl (by simp [Task.uses, Stmt.uses])
  | @test _ _ _ alternate | @body _ _ _ alternate =>
    cases alternate <;> exact .inl (by simp [Task.uses, Stmt.uses])
  | alternate => exact .inl (by simp [Task.uses, Stmt.uses])
  | otherwise | fetch => exact .inl (by simp [Task.uses, Stmt.uses])
  | first | next => exact .inl (by simp [Task.uses, Stmt.allUses])
  | inside => exact .inl (by simp [Task.uses, Block.uses])
  | program => exact .inl (by simp [Task.uses, Program.uses])
  | frame | load => exact .inl (by simp [Task.uses])
  | module hread hparse => exact .inr (.inr ⟨_, _, _, _, _, rfl, hread, hparse, rfl⟩)

/-- All operators in the body of the function are met. -/
def Function.Met (a₀ : Activation) : Function → Prop
  | builtin _ => True
  | user f => ∀ u ∈ f.body.uses, a₀.Meets u

theorem codeInvariant_meets (a₀ : Activation) :
    CodeInvariant (fun _ f => f.Met a₀) (fun disk => disk = a₀.start.disk)
      (fun a => (∃ callers, CallStack a₀ callers a) ∧ ∀ u ∈ a.task.uses, a₀.Meets u) where
  builtin _ := trivial
  calls {a b} ha hstores hcall := by
    obtain ⟨⟨callers, hstack⟩, huses⟩ := ha
    refine ⟨⟨_, hstack.push hcall⟩, fun u hu => ?_⟩
    rcases hcall.uses_cases with hpart | ⟨name, f, hf, heq⟩ |
      ⟨d, path, line, source, q, htask, hread, hparse, heq⟩
    · exact huses u (hpart hu)
    · exact hstores.functions name _ hf u (heq ▸ hu)
    · obtain ⟨task, start⟩ := a
      obtain rfl : task = .load d path line := htask
      refine .loaded ⟨callers, d, path, line, start, source, hstack, ?_, hparse⟩ (heq ▸ hu)
      rw [← hstores.disk]
      exact hread
  define ha := ha.2

/-- All that is applied on the way of an activation is what it meets. -/
theorem CallStack.meets {a₀ a : Activation} {callers : List Activation}
    (h : CallStack a₀ callers a) : ∀ u ∈ a.task.uses, a₀.Meets u := by
  have hstores : a₀.start.Stores (fun _ f => f.Met a₀) (fun disk => disk = a₀.start.disk) := by
    refine ⟨fun name f hf => ?_, rfl⟩
    cases f with
    | builtin b => trivial
    | user f => exact fun u hu => .stored hf hu
  have hstart : (∃ callers, CallStack a₀ callers a₀) ∧ ∀ u ∈ a₀.task.uses, a₀.Meets u :=
    ⟨⟨[], .base⟩, fun u hu => .own hu⟩
  exact ((codeInvariant_meets a₀).closedFrom.stack h ⟨hstart, hstores⟩).1.2

section

variable {a₀ : Activation} {callers : List Activation} {d line : Nat} {op : Operator} {m : Machine}

theorem CallStack.meets_unary {e : Expr}
    (h : CallStack a₀ callers ⟨.expr d (.unary op e line), m⟩) : a₀.Meets (.unary op line) :=
  h.meets _ (by simp [Task.uses, Expr.uses])

theorem CallStack.meets_binary {l r : Expr}
    (h : CallStack a₀ callers ⟨.expr d (.binary l op r line), m⟩) : a₀.Meets (.binary op line) :=
  h.meets _ (by simp [Task.uses, Expr.uses])

end

end TagScript
