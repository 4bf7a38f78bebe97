import TagScript.Proofs.ErrorChain
import TagScript.Proofs.Exports

/-!
# Why runs stop early

What stops the evaluator, said once, as `Course` says once what changes the machine. An activation
stops early for a reason of its own, one of those of `Activation.Raises`, or because one that it
called has stopped, and then it passes on what stopped that: `Activation.halted_cases`. Only the
load of a module changes what it passes on, by putting the module's path around an error.

So every early stop goes back to one activation on a call stack of the run, with nothing but modules
around the reason that it gives: `Activation.exists_raises`.
-/

namespace TagScript

open Activation

variable {α β : Type}

/-! ### Reasons -/

/-- The activation stops early for a reason of its own; all that it called before gave values. -/
inductive Activation.Raises : Activation → Halt → Prop
  | undefined {d id line m} : m.lookup id = none →
    Raises ⟨.expr d (.name id line), m⟩ (.error (.run line (.undefinedVariable id)))
  | unary {d op e line m m' v} : Expr.eval (invoke d) e m = .ok v m' → Value.unary op v = none →
    Raises ⟨.expr d (.unary op e line), m⟩ (.error (.run line (.unknownOperator op)))
  | binary {d l op r line m m₁ m₂ v w} : Expr.eval (invoke d) l m = .ok v m₁ →
    Expr.eval (invoke d) r m₁ = .ok w m₂ → Value.binary op v w = none →
      Raises ⟨.expr d (.binary l op r line), m⟩ (.error (.run line (.unknownOperator op)))
  | uncallable {d callee es line m} : m.functions.get? callee = none →
    Raises ⟨.expr d (.call callee es line), m⟩ (.error (.run line (.unknownFunction callee)))
  | arity {d callee es line m f} : m.functions.get? callee = some (.user f) →
    es.length ≠ f.params.length → Raises ⟨.expr d (.call callee es line), m⟩
      (.error (.run line (.arity f.name f.params.length es.length)))
  | builtin {d callee es line m m' b args h} : m.functions.get? callee = some (.builtin b) →
    Expr.evalAll (invoke d) es m = .ok args m' →
      halted (b.call (args.map Binding.value) line) m' = some h →
        Raises ⟨.expr d (.call callee es line), m⟩ h
  | unassignable {d name e line m fault} : m.checkAssignable name = .error fault →
    Raises ⟨.stmt d (.set name e line), m⟩ (.error (.run line fault))
  | unassigned {d name e line m m' v fault} : Expr.eval (invoke d) e m = .ok v m' →
    m'.assign name v = .error fault →
      Raises ⟨.stmt d (.set name e line), m⟩ (.error (.run line fault))
  | launch {d names line m h} : halted (launchNames line names) m = some h →
    Raises ⟨.stmt d (.launch names line), m⟩ h
  | deepCall {f args m} : Raises ⟨.call 0 f args, m⟩ .tooDeep
  | deepFetch {requested line m} : Raises ⟨.fetch 0 requested line, m⟩ .tooDeep
  | unresolved {d requested line m fault} : m.target requested = .error fault →
    Raises ⟨.fetch (d + 1) requested line, m⟩ (.error (.run line fault))
  | unread {d path line m reason} : m.disk.readText path = .error reason →
    Raises ⟨.load d path line, m⟩ (.error (.run line (.moduleRead path reason)))
  | unparsed {d path line m source e} : m.disk.readText path = .ok source →
    Program.parse source = .error e →
      Raises ⟨.load d path line, m⟩ (.error (.inModule path line e))

/-- What stopped a called activation, as the caller passes it on. -/
def Task.passOn : Task → Halt → Halt
  | load _ path line, h => h.fromModule path line
  | _, h => h

/-- Why an activation stops early, if it does. -/
def Activation.halted (a : Activation) : Option Halt :=
  a.task.halted a.start

/-- The activation stops for a reason of its own or for one that it was given by a call. -/
def Activation.Accounts (a : Activation) (h : Halt) : Prop :=
  a.Raises h ∨ ∃ b h', a.Calls b ∧ b.halted = some h' ∧ h = a.task.passOn h'

/-! ### Stages -/

/-- A run in two stages stops in the first or in the second. -/
theorem halted_bind_cases {x : Run α} {f : α → Run β} {m : Machine} {h : Halt}
    (hrun : halted (x >>= f) m = some h) :
    halted x m = some h ∨ ∃ v m', x m = .ok v m' ∧ halted (f v) m' = some h := by
  cases hx : x m with
  | ok v m' =>
    rw [halted_bind_of_ok hx] at hrun
    exact .inr ⟨v, m', rfl, hrun⟩
  | error h' m' =>
    refine .inl ?_
    unfold halted at hrun ⊢
    rw [bind_eq_of_error hx] at hrun
    rwa [hx]

/-- What only maps the value of a run does not stop it. -/
theorem halted_bind_pure (x : Run α) (f : α → β) (m : Machine) :
    halted (x >>= fun v => pure (f v)) m = halted x m := by
  unfold halted
  cases hx : x m with
  | ok v m' =>
    rw [bind_eq_of_ok hx]
    rfl
  | error h m' => rw [bind_eq_of_error hx]

theorem Activation.Accounts.of_call {a b : Activation} {h : Halt} (hcall : a.Calls b)
    (hb : b.halted = some h) (hpass : a.task.passOn h = h) : a.Accounts h :=
  .inr ⟨b, h, hcall, hb, hpass.symm⟩

/-! ### Expressions and statements -/

theorem accounts_expr {d : Nat} {e : Expr} {m : Machine} {h : Halt}
    (hrun : halted (e.eval (invoke d)) m = some h) : Accounts ⟨.expr d e, m⟩ h := by
  cases e with
  | literal value line =>
    rw [Expr.eval] at hrun
    cases hrun
  | name id line =>
    rw [Expr.eval, halted_get_bind] at hrun
    cases hlookup : m.lookup id with
    | some binding =>
      rw [hlookup] at hrun
      cases hrun
    | none =>
      rw [hlookup] at hrun
      cases hrun
      exact .inl (.undefined hlookup)
  | unary op e line =>
    rw [Expr.eval] at hrun
    rcases halted_bind_cases hrun with he | ⟨v, m', he, hrun⟩
    · exact .of_call .operand he rfl
    · cases hv : v.unary op with
      | some result =>
        rw [hv] at hrun
        cases hrun
      | none =>
        rw [hv] at hrun
        cases hrun
        exact .inl (.unary he hv)
  | binary l op r line =>
    rw [Expr.eval] at hrun
    rcases halted_bind_cases hrun with hl | ⟨v, m₁, hl, hrun⟩
    · exact .of_call .left hl rfl
    rcases halted_bind_cases hrun with hr | ⟨w, m₂, hr, hrun⟩
    · exact .of_call (.right hl) hr rfl
    cases hv : v.binary op w with
    | some result =>
      rw [hv] at hrun
      cases hrun
    | none =>
      rw [hv] at hrun
      cases hrun
      exact .inl (.binary hl hr hv)
  | call callee es line =>
    rw [Expr.eval, halted_get_bind] at hrun
    cases hf : m.functions.get? callee with
    | none =>
      rw [hf] at hrun
      cases hrun
      exact .inl (.uncallable hf)
    | some f =>
      rw [hf] at hrun
      cases f with
      | builtin b =>
        rcases halted_bind_cases hrun with hes | ⟨args, m', hes, hrun⟩
        · exact .of_call (.builtinArgs hf) hes rfl
        · exact .inl (.builtin hf hes hrun)
      | user f =>
        by_cases hlength : es.length = f.params.length
        · simp only [if_pos hlength] at hrun
          rcases halted_bind_cases hrun with hes | ⟨args, m', hes, hrun⟩
          · exact .of_call (.callArgs hf hlength) hes rfl
          · exact .of_call (.call hf hlength hes) hrun rfl
        · simp only [if_neg hlength] at hrun
          cases hrun
          exact .inl (.arity hf hlength)

theorem accounts_exprs {d : Nat} {es : List Expr} {m : Machine} {h : Halt}
    (hrun : halted (Expr.evalAll (invoke d) es) m = some h) : Accounts ⟨.exprs d es, m⟩ h := by
  cases es with
  | nil =>
    rw [Expr.evalAll] at hrun
    cases hrun
  | cons e rest =>
    rw [Expr.evalAll] at hrun
    rcases halted_bind_cases hrun with he | ⟨v, m', he, hrun⟩
    · exact .of_call .firstArg he rfl
    · rw [halted_get_bind, halted_bind_pure] at hrun
      exact .of_call (.nextArgs he) hrun rfl

theorem accounts_stmt {d : Nat} {s : Stmt} {m : Machine} {h : Halt}
    (hrun : halted (s.exec (invoke d) (fetch d)) m = some h) : Accounts ⟨.stmt d s, m⟩ h := by
  cases s with
  | declare type name e line =>
    rw [Stmt.exec] at hrun
    rcases halted_bind_cases hrun with he | ⟨v, m', he, hrun⟩
    · exact .of_call .declare he rfl
    · cases hrun
  | set name e line =>
    rw [Stmt.exec, halted_bind_pure, setVariable, halted_get_bind] at hrun
    cases hname : m.checkAssignable name with
    | error fault =>
      rw [hname] at hrun
      cases hrun
      exact .inl (.unassignable hname)
    | ok u =>
      rw [hname] at hrun
      rcases halted_bind_cases hrun with he | ⟨v, m', he, hrun⟩
      · exact .of_call (.set hname) he rfl
      · rw [store, halted_get_bind] at hrun
        cases hassign : m'.assign name v with
        | ok m₁ =>
          rw [hassign] at hrun
          cases hrun
        | error fault =>
          rw [hassign] at hrun
          cases hrun
          exact .inl (.unassigned he hassign)
  | define name result params body line =>
    rw [Stmt.exec] at hrun
    cases hrun
  | when e b alternate line =>
    rw [Stmt.exec.eq_def] at hrun
    dsimp only at hrun
    rcases halted_bind_cases hrun with he | ⟨v, m', he, hrun⟩
    · exact .of_call .test he rfl
    cases htruth : v.isTruthy with
    | true =>
      rw [if_pos htruth] at hrun
      exact .of_call (.body he htruth) hrun rfl
    | false =>
      rw [if_neg (by simp [htruth])] at hrun
      cases alternate with
      | none => cases hrun
      | some c => exact .of_call (.alternate he htruth) hrun rfl
  | otherwise b line =>
    rw [Stmt.exec] at hrun
    exact .of_call .otherwise hrun rfl
  | giveBack e line =>
    rw [Stmt.exec, halted_bind_pure] at hrun
    exact .of_call .giveBack hrun rfl
  | expression e line =>
    rw [Stmt.exec, halted_bind_pure] at hrun
    exact .of_call .expression hrun rfl
  | fetch requested line =>
    rw [Stmt.exec, halted_bind_pure] at hrun
    exact .of_call .fetch hrun rfl
  | launch names line =>
    rw [Stmt.exec, halted_bind_pure] at hrun
    exact .inl (.launch hrun)

theorem accounts_stmts {d : Nat} {ss : List Stmt} {m : Machine} {h : Halt}
    (hrun : halted (Stmt.execAll (invoke d) (fetch d) ss) m = some h) :
    Accounts ⟨.stmts d ss, m⟩ h := by
  cases ss with
  | nil =>
    rw [Stmt.execAll] at hrun
    cases hrun
  | cons s rest =>
    rw [Stmt.execAll] at hrun
    rcases halted_bind_cases hrun with hs | ⟨flow, m', hs, hrun⟩
    · exact .of_call .first hs rfl
    · cases flow with
      | normal => exact .of_call (.next hs) hrun rfl
      | returned v => cases hrun

/-! ### Brackets -/

theorem accounts_fetch {d : Nat} {requested : String} {line : Nat} {m : Machine} {h : Halt}
    (hrun : halted (fetch d requested line) m = some h) :
    Accounts ⟨.fetch d requested line, m⟩ h := by
  cases d with
  | zero =>
    rw [fetch] at hrun
    cases hrun
    exact .inl .deepFetch
  | succ d =>
    rw [fetch] at hrun
    cases htarget : m.target requested with
    | error fault =>
      unfold halted at hrun
      rw [importModule_apply, htarget] at hrun
      cases hrun
      exact .inl (.unresolved htarget)
    | ok path =>
      cases hrunning : m.isRunning path with
      | true =>
        unfold halted at hrun
        rw [importModule_apply, htarget] at hrun
        simp [hrunning] at hrun
      | false =>
        rw [halted_importModule htarget hrunning] at hrun
        rcases halted_bind_cases hrun with hload | ⟨exports, m', -, hrun⟩
        · rw [halted_whileLoading] at hload
          exact .of_call (.load htarget hrunning) hload rfl
        · cases hrun

theorem accounts_load {d : Nat} {path : String} {line : Nat} {m : Machine} {h : Halt}
    (hrun : halted (runModule (Program.exec (invoke d) (fetch d)) path line) m = some h) :
    Accounts ⟨.load d path line, m⟩ h := by
  cases hread : m.disk.readText path with
  | error reason =>
    simp only [halted, runModule, hread] at hrun
    cases hrun
    exact .inl (.unread hread)
  | ok source =>
    cases hparse : Program.parse source with
    | error e =>
      simp only [halted, runModule, hread, hparse] at hrun
      cases hrun
      exact .inl (.unparsed hread hparse)
    | ok p =>
      rw [halted_runModule hread hparse] at hrun
      obtain ⟨h', hp, rfl⟩ := Option.map_eq_some_iff.1 hrun
      exact .inr ⟨_, h', .module hread hparse, hp, rfl⟩

/-- What stops an activation early: a reason of its own, or what stopped one of its calls. -/
theorem Activation.halted_cases {a : Activation} {h : Halt} (ha : a.halted = some h) :
    a.Accounts h := by
  obtain ⟨task, m⟩ := a
  unfold Activation.halted at ha
  cases task with
  | expr d e => exact accounts_expr ha
  | exprs d es => exact accounts_exprs ha
  | stmt d s => exact accounts_stmt ha
  | stmts d ss => exact accounts_stmts ha
  | program d p =>
    rw [Task.halted, Program.exec, halted_bind_pure] at ha
    exact .of_call .program ha rfl
  | block d b =>
    cases b with
    | mk ss line =>
      rw [Task.halted, Block.exec, halted_inBlock] at ha
      exact .of_call .inside ha rfl
  | call d f args =>
    cases d with
    | zero =>
      rw [Task.halted, invoke] at ha
      cases ha
      exact .inl .deepCall
    | succ d =>
      rw [Task.halted, invoke, halted_inFrame] at ha
      exact .of_call .frame ha rfl
  | fetch d requested line => exact accounts_fetch ha
  | load d path line => exact accounts_load ha

/-! ### Runs -/

/-- What stopped a run, without the modules around an error. -/
def Halt.innermost : Halt → Halt
  | error e => error e.innermost
  | tooDeep => tooDeep

theorem Halt.innermost_fromModule (path : String) (line : Nat) (h : Halt) :
    (h.fromModule path line).innermost = h.innermost := by
  cases h with
  | tooDeep => rfl
  | error e => cases e <;> rfl

theorem Task.innermost_passOn (t : Task) (h : Halt) : (t.passOn h).innermost = h.innermost := by
  cases t with
  | load d path line => exact h.innermost_fromModule path line
  | _ => rfl

/-- Whatever stops a run, some activation on the way gave it as a reason of its own. -/
theorem Activation.exists_raises (a : Activation) {h : Halt} (ha : a.halted = some h) :
    ∃ callers b h₀, CallStack a callers b ∧ b.Raises h₀ ∧ h.innermost = h₀.innermost := by
  rcases halted_cases ha with hraises | ⟨b, h', hcall, hb, rfl⟩
  · exact ⟨[], a, h, .base, hraises, rfl⟩
  · obtain ⟨callers, c, h₀, hstack, hraises, heq⟩ := b.exists_raises hb
    exact ⟨_, c, h₀, hstack.cons hcall, hraises, (a.task.innermost_passOn h').trans heq⟩
termination_by a.task.rank
decreasing_by exact hcall.rank_lt

end TagScript
