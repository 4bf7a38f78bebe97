import TagScript.Machine.Session

/-!
# Activations

A run of the evaluator is a tree: evaluating an expression evaluates its operands, running a
statement runs a block or an import, and so on. `Task` lists the pieces of work, an `Activation` is
a piece of work with the machine that it starts in, and `Calls` says which activations an activation
begins, each in the machine that the work before it has left. The chains of `Calls` are the call
stacks of a run. `Calls.rank_lt` makes induction over them well-founded.
-/

namespace TagScript

variable {α β : Type}

/-! ### After a run -/

/-- The machine after a run, whether it gives a value or stops early. -/
def after (run : Run α) (m : Machine) : Machine :=
  match run m with
  | .ok _ m' => m'
  | .error _ m' => m'

theorem after_of_ok {run : Run α} {m m' : Machine} {a : α} (h : run m = .ok a m') :
    after run m = m' := by
  rw [after, h]

theorem after_of_error {run : Run α} {m m' : Machine} {halt : Halt} (h : run m = .error halt m') :
    after run m = m' := by
  rw [after, h]

theorem bind_eq_of_ok {x : Run α} {f : α → Run β} {m m' : Machine} {a : α} (h : x m = .ok a m') :
    (x >>= f) m = f a m' := by
  simp only [bind, EStateM.bind, h]

theorem bind_eq_of_error {x : Run α} {f : α → Run β} {m m' : Machine} {halt : Halt}
    (h : x m = .error halt m') : (x >>= f) m = .error halt m' := by
  simp only [bind, EStateM.bind, h]

theorem get_bind_apply (f : Machine → Run α) (m : Machine) : (get >>= f) m = f m m :=
  rfl

theorem after_get_bind (f : Machine → Run α) (m : Machine) : after (get >>= f) m = after (f m) m :=
  rfl

/-- What only maps the value of a run changes nothing. -/
theorem after_bind_pure (x : Run α) (f : α → β) (m : Machine) :
    after (x >>= fun a => pure (f a)) m = after x m := by
  unfold after
  cases h : x m with
  | ok a m' => rw [bind_eq_of_ok h]; rfl
  | error halt m' => rw [bind_eq_of_error h]

theorem after_inBlock (run : Run α) (m : Machine) :
    after (inBlock run) m =
      let m' := after run { m with scopes := ∅ :: m.scopes }
      { m' with scopes := m'.scopes.tail } := by
  unfold after inBlock
  cases run { m with scopes := ∅ :: m.scopes } <;> rfl

theorem after_inFrame (s : Scope) (run : Run Flow) (m : Machine) :
    after (inFrame s run) m = { after run { m with scopes := [s] } with scopes := m.scopes } := by
  unfold after inFrame
  rcases run { m with scopes := [s] } with ⟨_ | _, _⟩ | _ <;> rfl

/-! ### Tasks -/

/-- A piece of the evaluator's work, with the depth of calls and imports that it has left. -/
inductive Task where
  | expr (depth : Nat) (e : Expr)
  | exprs (depth : Nat) (es : List Expr)
  | stmt (depth : Nat) (s : Stmt)
  | stmts (depth : Nat) (ss : List Stmt)
  | block (depth : Nat) (b : Block)
  | program (depth : Nat) (p : Program)
  | call (depth : Nat) (f : FunctionDecl) (args : List Binding)
  | fetch (depth : Nat) (requested : String) (line : Nat)
  /-- The module at a resolved path, from reading its file to its end. -/
  | load (depth : Nat) (path : String) (line : Nat)

namespace Task

/-- The machine that a task leaves. -/
def after : Task → Machine → Machine
  | expr d e => TagScript.after (e.eval (invoke d))
  | exprs d es => TagScript.after (Expr.evalAll (invoke d) es)
  | stmt d s => TagScript.after (s.exec (invoke d) (TagScript.fetch d))
  | stmts d ss => TagScript.after (Stmt.execAll (invoke d) (TagScript.fetch d) ss)
  | block d b => TagScript.after (b.exec (invoke d) (TagScript.fetch d))
  | program d p => TagScript.after (p.exec (invoke d) (TagScript.fetch d))
  | call d f args => TagScript.after (invoke d f args)
  | fetch d requested line => TagScript.after (TagScript.fetch d requested line)
  | load d path line =>
    TagScript.after (runModule (Program.exec (invoke d) (TagScript.fetch d)) path line)

/-- The module that a task is the execution of. -/
def path? : Task → Option String
  | load _ path _ => some path
  | _ => none

/-- What a call decreases: first the depth, with a load between two depths, then the syntax. -/
noncomputable def rank : Task → Nat × Nat
  | expr d e => (2 * d, sizeOf e)
  | exprs d es => (2 * d, sizeOf es)
  | stmt d s => (2 * d, sizeOf s)
  | stmts d ss => (2 * d, sizeOf ss)
  | block d b => (2 * d, sizeOf b)
  | program d p => (2 * d, sizeOf p)
  | call d _ _ => (2 * d, 0)
  | fetch d _ _ => (2 * d, 0)
  | load d _ _ => (2 * d + 1, 0)

end Task

/-! ### Calls -/

structure Activation where
  task : Task
  start : Machine

namespace Activation

/-- The machine that an activation leaves. -/
def finish (a : Activation) : Machine :=
  a.task.after a.start

/-- The first activation begins the second as a part of its own work. -/
inductive Calls : Activation → Activation → Prop
  | operand {d op e line m} : Calls ⟨.expr d (.unary op e line), m⟩ ⟨.expr d e, m⟩
  | left {d l op r line m} : Calls ⟨.expr d (.binary l op r line), m⟩ ⟨.expr d l, m⟩
  | right {d l op r line m m' v} : Expr.eval (invoke d) l m = .ok v m' →
    Calls ⟨.expr d (.binary l op r line), m⟩ ⟨.expr d r, m'⟩
  | builtinArgs {d callee es line m b} : m.functions.get? callee = some (.builtin b) →
    Calls ⟨.expr d (.call callee es line), m⟩ ⟨.exprs d es, m⟩
  | callArgs {d callee es line m f} : m.functions.get? callee = some (.user f) →
    es.length = f.params.length → Calls ⟨.expr d (.call callee es line), m⟩ ⟨.exprs d es, m⟩
  | call {d callee es line m m' f args} : m.functions.get? callee = some (.user f) →
    es.length = f.params.length → Expr.evalAll (invoke d) es m = .ok args m' →
      Calls ⟨.expr d (.call callee es line), m⟩ ⟨.call d f args, m'⟩
  | firstArg {d e es m} : Calls ⟨.exprs d (e :: es), m⟩ ⟨.expr d e, m⟩
  | nextArgs {d e es m m' v} : Expr.eval (invoke d) e m = .ok v m' →
    Calls ⟨.exprs d (e :: es), m⟩ ⟨.exprs d es, m'⟩
  | declare {d type name e line m} : Calls ⟨.stmt d (.declare type name e line), m⟩ ⟨.expr d e, m⟩
  | set {d name e line m} : m.checkAssignable name = .ok () →
    Calls ⟨.stmt d (.set name e line), m⟩ ⟨.expr d e, m⟩
  | test {d e b alternate line m} : Calls ⟨.stmt d (.when e b alternate line), m⟩ ⟨.expr d e, m⟩
  | body {d e b alternate line m m' v} : Expr.eval (invoke d) e m = .ok v m' →
    v.isTruthy = true → Calls ⟨.stmt d (.when e b alternate line), m⟩ ⟨.block d b, m'⟩
  | alternate {d e b c line m m' v} : Expr.eval (invoke d) e m = .ok v m' →
    v.isTruthy = false → Calls ⟨.stmt d (.when e b (some c) line), m⟩ ⟨.block d c, m'⟩
  | otherwise {d b line m} : Calls ⟨.stmt d (.otherwise b line), m⟩ ⟨.block d b, m⟩
  | giveBack {d e line m} : Calls ⟨.stmt d (.giveBack e line), m⟩ ⟨.expr d e, m⟩
  | expression {d e line m} : Calls ⟨.stmt d (.expression e line), m⟩ ⟨.expr d e, m⟩
  | fetch {d requested line m} :
    Calls ⟨.stmt d (.fetch requested line), m⟩ ⟨.fetch d requested line, m⟩
  | first {d s ss m} : Calls ⟨.stmts d (s :: ss), m⟩ ⟨.stmt d s, m⟩
  | next {d s ss m m'} : Stmt.exec (invoke d) (TagScript.fetch d) s m = .ok .normal m' →
    Calls ⟨.stmts d (s :: ss), m⟩ ⟨.stmts d ss, m'⟩
  | inside {d ss line m} :
    Calls ⟨.block d (.mk ss line), m⟩ ⟨.stmts d ss, { m with scopes := ∅ :: m.scopes }⟩
  | program {d p m} : Calls ⟨.program d p, m⟩ ⟨.stmts d p.body, m⟩
  | frame {d f args m} : Calls ⟨.call (d + 1) f args, m⟩
    ⟨.block d f.body, { m with scopes := [TagScript.frame f.params args] }⟩
  | load {d requested line m path} : m.target requested = .ok path → m.isRunning path = false →
    Calls ⟨.fetch (d + 1) requested line, m⟩
      ⟨.load d path line, m.mark path⟩
  | module {d path line m source p} : m.disk.readText path = .ok source →
    Program.parse source = .ok p → Calls ⟨.load d path line, m⟩ ⟨.program d p, m.forModule path⟩

theorem Calls.rank_lt {a b : Activation} (h : a.Calls b) :
    Prod.Lex (· < ·) (· < ·) b.task.rank a.task.rank := by
  cases h with
  | frame => exact .left _ _ (by omega)
  | load => exact .left _ _ (by omega)
  | module => exact .left _ _ (by omega)
  | @program d p m =>
    refine .right _ ?_
    cases p
    simp
  | _ => exact .right _ (by simp <;> omega)

theorem rank_lt_of_transGen {a b : Activation} (h : Relation.TransGen Calls a b) :
    Prod.Lex (· < ·) (· < ·) b.task.rank a.task.rank := by
  induction h with
  | single hcall => exact hcall.rank_lt
  | tail _ hcall ih =>
    have hlt := hcall.rank_lt
    rw [Prod.lex_def] at hlt ih ⊢
    omega

end Activation

end TagScript
