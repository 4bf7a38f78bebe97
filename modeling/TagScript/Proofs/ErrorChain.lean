import Mathlib.Control.Monad.Basic
import TagScript.Proofs.Comparison
import TagScript.Proofs.ImportStack

/-!
# Errors across imports

An error that leaves a module is wrapped with the module's path, so an error carries the chain of
modules it came through. `error_chain` gives the shape of such chains: no path is there twice or was
marked as loading when the run started, since every module on the way was imported while all that
are further out were marked. A program that ends itself is never wrapped, and from wherever in a run
it does so, the run ends with its status. What cannot be read is an error of the module it is in.

The shape is a fact about single runs. `traced` compares a run with itself, in machines that mark
the given paths. `CallStack.exits` is the other half: an exit goes up every call stack.
-/

namespace TagScript

open Activation

variable {α β : Type}

/-! ### Chains -/

namespace Error

/-- The modules that an error came through, the outermost first. -/
def chain : Error → List String
  | inModule path _ cause => path :: cause.chain
  | _ => []

/-- The error without the modules around it. -/
def innermost : Error → Error
  | inModule _ _ cause => cause.innermost
  | e => e

/-- A source text could not be read as a program. -/
inductive Unreadable : Error → Prop
  | lex (cause : LexError) : Unreadable (lex cause)
  | parse (cause : ParseError) : Unreadable (parse cause)

/-- The shape of an error that comes out of a run with some paths marked as loading. -/
structure Traced (d : Disk) (loading : List String) (e : Error) : Prop where
  nodup : e.chain.Nodup
  unmarked : ∀ path ∈ e.chain, path ∉ loading
  resolved : ∀ path ∈ e.chain, ∃ text, d.resolve text = .ok path
  exit : ∀ status, e.innermost = .exit status → e.chain = []

variable {d : Disk} {loading : List String} {e : Error} {path : String}

theorem Traced.of_chain_nil (h : e.chain = []) : e.Traced d loading := by
  refine ⟨?_, ?_, ?_, fun _ _ => h⟩ <;> simp [h]

theorem innermost_of_chain_nil (h : e.chain = []) : e.innermost = e := by
  cases e with
  | inModule => cases h
  | _ => rfl

/-- A module passes an error on: its path was not marked yet, so it comes new into the chain. -/
theorem Traced.inModule (h : e.Traced d (path :: loading)) (hnot : path ∉ loading)
    (hresolve : ∃ text, d.resolve text = .ok path) (hexit : ∀ status, e ≠ .exit status)
    (line : Nat) : (Error.inModule path line e).Traced d loading where
  nodup := List.nodup_cons.2 ⟨fun hmem => h.unmarked path hmem (List.mem_cons_self ..), h.nodup⟩
  unmarked := by
    rintro q (_ | ⟨_, hq⟩)
    · exact hnot
    · exact fun hmem => h.unmarked q hq (List.mem_cons_of_mem _ hmem)
  resolved := by
    rintro q (_ | ⟨_, hq⟩)
    · exact hresolve
    · exact h.resolved q hq
  exit status hstatus := by
    have hnil := h.exit status hstatus
    exact absurd ((innermost_of_chain_nil hnil).symm.trans hstatus) (hexit status)

theorem Unreadable.chain_eq_nil (h : e.Unreadable) : e.chain = [] := by
  cases h <;> rfl

end Error

theorem unreadable_of_parse {source : String} {e : Error} (h : Program.parse source = .error e) :
    e.Unreadable := by
  unfold Program.parse at h
  split at h
  · cases h
    exact .lex _
  · split at h
    · cases h
      exact .parse _
    · cases h

/-! ### Errors of a run -/

/-- What stops a run early: if an error, then one with the shape of errors of runs. -/
def Halt.Traced (d : Disk) (loading : List String) (h : Halt) : Prop :=
  ∀ e, h = .error e → e.Traced d loading ∧ (e.innermost.Unreadable → e.chain ≠ [])

theorem Halt.Traced.tooDeep (d : Disk) (loading : List String) : Halt.tooDeep.Traced d loading := by
  rintro e ⟨⟩

theorem Halt.Traced.fromModule {d : Disk} {loading : List String} {path : String} {h : Halt}
    (htraced : h.Traced d (path :: loading)) (hnot : path ∉ loading)
    (hresolve : ∃ text, d.resolve text = .ok path) (line : Nat) :
    (h.fromModule path line).Traced d loading := by
  rintro e heq
  cases h with
  | tooDeep => cases heq
  | error cause =>
    obtain ⟨hcause, -⟩ := htraced cause rfl
    by_cases hexit : ∃ status, cause = .exit status
    · obtain ⟨status, rfl⟩ := hexit
      cases heq
      exact ⟨.of_chain_nil rfl, nofun⟩
    · have hwrapped : e = .inModule path line cause := by
        cases cause with
        | exit status => exact absurd ⟨status, rfl⟩ hexit
        | _ =>
          cases heq
          rfl
      subst hwrapped
      exact ⟨hcause.inModule hnot hresolve (fun status h => hexit ⟨status, h⟩) line, nofun⟩

/-- A run compared with itself, while the given paths are marked. -/
def traced (d : Disk) (loading : List String) : Comparison :=
  { Comparison.exact with
    halt := fun h _ => h.Traced d loading
    within := Machine.Marks d loading
    fault := by
      rintro i j fault _ _ ⟨⟩
      exact ⟨.of_chain_nil rfl, nofun⟩
    exit := by
      rintro status _ ⟨⟩
      exact ⟨.of_chain_nil rfl, nofun⟩
    fixed := Machine.Marks.fixed }

section

variable {d : Disk} {loading : List String}

theorem traced_imports {path : String} (hnot : path ∉ loading)
    (hresolve : ∃ text, d.resolve text = .ok path) :
    (traced d loading).Imports path (traced d (path :: loading)) where
  tag _ _ := id
  exported _ _ := id
  mark h := congrArg (List.insert path) h
  tables _ _ := trivial
  halt hhalt _ := hhalt.fromModule hnot hresolve _
  unparsed hparse _ := by
    rintro _ ⟨⟩
    have hchain := (unreadable_of_parse hparse).chain_eq_nil
    refine ⟨Error.Traced.inModule (.of_chain_nil hchain) hnot hresolve ?_ _, nofun⟩
    rintro status rfl
    cases unreadable_of_parse hparse

theorem hereditary_traced (d : Disk) :
    Comparison.Hereditary fun c => ∃ loading, c = traced d loading where
  tooDeep := by
    rintro _ ⟨loading, rfl⟩
    exact .tooDeep d loading
  module := by
    rintro _ ⟨_, rfl⟩ m path ⟨rfl, rfl⟩ hresolve hrunning
    exact ⟨_, ⟨_, rfl⟩, traced_imports (Machine.not_mem_loading hrunning) hresolve,
      Machine.marks_enterModule hrunning, fun source p _ _ => p.alike_refl⟩

theorem runProgram_traced {depth : Nat} {p : Program} {m m' : Machine} {h : Halt}
    (hrun : runProgram depth p m = .error h m') : h.Traced m.disk m.loading := by
  have hm : (traced m.disk m.loading).Machines m m :=
    ⟨.of_tables (fun _ => rfl) rfl (.refl fun _ f _ => .refl (fun _ => rfl) f)
      (.refl fun _ x _ => .refl (fun _ => rfl) (fun _ => rfl) x), ⟨rfl, rfl⟩, trivial⟩
  have hresults := (hereditary_traced m.disk).runProgram_runs ⟨_, rfl⟩ depth p.alike_refl m m hm
  rw [hrun] at hresults
  cases hresults with
  | error hhalt _ => exact hhalt

end

/-! ### Exits -/

/-- Why a run stops early, if it does. -/
def halted (run : Run α) (m : Machine) : Option Halt :=
  match run m with
  | .ok _ _ => none
  | .error h _ => some h

theorem halted_bind_of_ok {x : Run α} {f : α → Run β} {m m' : Machine} {a : α}
    (h : x m = .ok a m') : halted (x >>= f) m = halted (f a) m' := by
  rw [halted, bind_eq_of_ok h]
  rfl

theorem halted_bind {x : Run α} {f : α → Run β} {m : Machine} {h : Halt}
    (hx : halted x m = some h) : halted (x >>= f) m = some h := by
  unfold halted at hx ⊢
  cases hxm : x m with
  | ok a m' =>
    rw [hxm] at hx
    cases hx
  | error h' m' =>
    rw [hxm] at hx
    rw [bind_eq_of_error hxm]
    exact hx

theorem halted_get_bind (f : Machine → Run α) (m : Machine) :
    halted (get >>= f) m = halted (f m) m :=
  rfl

theorem halted_inBlock (run : Run α) (m : Machine) :
    halted (inBlock run) m = halted run { m with scopes := ∅ :: m.scopes } := by
  unfold halted inBlock
  cases run { m with scopes := ∅ :: m.scopes } <;> rfl

theorem halted_inFrame (s : Scope) (run : Run Flow) (m : Machine) :
    halted (inFrame s run) m = halted run { m with scopes := [s] } := by
  unfold halted inFrame
  rcases run { m with scopes := [s] } with ⟨_ | _, _⟩ | _ <;> rfl

theorem halted_whileLoading (path : String) (run : Run α) (m : Machine) :
    halted (whileLoading path run) m = halted run (m.mark path) := by
  unfold halted whileLoading
  cases run (m.mark path) <;> rfl

theorem halted_importModule {run : Program → Run Unit} {requested path : String} {line : Nat}
    {m : Machine} (htarget : m.target requested = .ok path) (hrunning : m.isRunning path = false) :
    halted (importModule run requested line) m =
      halted (whileLoading path (runModule run path line) >>= fun exports =>
        modify (·.merge exports)) m := by
  unfold halted
  rw [importModule_apply, htarget]
  simp only [hrunning, Bool.false_eq_true, if_false]

theorem halted_runModule {run : Program → Run Unit} {path source : String} {line : Nat}
    {m : Machine} {p : Program} (hread : m.disk.readText path = .ok source)
    (hparse : Program.parse source = .ok p) : halted (runModule run path line) m =
      (halted (run p) (m.forModule path)).map (Halt.fromModule path line) := by
  unfold halted runModule
  simp only [hread, hparse]
  cases run p (m.forModule path) <;> rfl

/-- Why a task stops early, if it does. -/
def Task.halted : Task → Machine → Option Halt
  | expr d e => TagScript.halted (e.eval (invoke d))
  | exprs d es => TagScript.halted (Expr.evalAll (invoke d) es)
  | stmt d s => TagScript.halted (s.exec (invoke d) (TagScript.fetch d))
  | stmts d ss => TagScript.halted (Stmt.execAll (invoke d) (TagScript.fetch d) ss)
  | block d b => TagScript.halted (b.exec (invoke d) (TagScript.fetch d))
  | program d p => TagScript.halted (p.exec (invoke d) (TagScript.fetch d))
  | call d f args => TagScript.halted (invoke d f args)
  | fetch d requested line => TagScript.halted (TagScript.fetch d requested line)
  | load d path line =>
    TagScript.halted (runModule (Program.exec (invoke d) (TagScript.fetch d)) path line)

/-- The activation ends the program with a status. -/
def Activation.Exits (a : Activation) (status : Int32) : Prop :=
  a.task.halted a.start = some (.error (.exit status))

/-- What an activation calls ends the program for it. -/
theorem Activation.Calls.exits {a b : Activation} (h : a.Calls b) {status : Int32}
    (hb : b.Exits status) : a.Exits status := by
  cases h
  all_goals dsimp only [Activation.Exits, Task.halted] at hb ⊢
  case operand | left =>
    rw [Expr.eval]
    exact halted_bind hb
  case right he =>
    rw [Expr.eval, halted_bind_of_ok he]
    exact halted_bind hb
  case builtinArgs hf =>
    rw [Expr.eval, halted_get_bind, hf]
    exact halted_bind hb
  case callArgs hf hlength =>
    rw [Expr.eval, halted_get_bind, hf]
    simp only [if_pos hlength]
    exact halted_bind hb
  case call hf hlength hargs =>
    rw [Expr.eval, halted_get_bind, hf]
    simp only [if_pos hlength]
    rw [halted_bind_of_ok hargs]
    exact hb
  case firstArg =>
    rw [Expr.evalAll]
    exact halted_bind hb
  case nextArgs he =>
    rw [Expr.evalAll, halted_bind_of_ok he, halted_get_bind]
    exact halted_bind hb
  case declare | giveBack | expression | fetch =>
    rw [Stmt.exec]
    exact halted_bind hb
  case set hassignable =>
    rw [Stmt.exec]
    refine halted_bind ?_
    rw [setVariable, halted_get_bind, hassignable]
    exact halted_bind hb
  case test =>
    rw [Stmt.exec.eq_def]
    exact halted_bind hb
  case body he htrue =>
    rw [Stmt.exec.eq_def]
    dsimp only
    rw [halted_bind_of_ok he, if_pos htrue]
    exact hb
  case alternate he hfalse =>
    rw [Stmt.exec.eq_def]
    dsimp only
    rw [halted_bind_of_ok he, if_neg (by simp [hfalse])]
    exact hb
  case otherwise =>
    rw [Stmt.exec]
    exact hb
  case first =>
    rw [Stmt.execAll]
    exact halted_bind hb
  case next hs =>
    rw [Stmt.execAll, halted_bind_of_ok hs]
    exact hb
  case inside =>
    rw [Block.exec, halted_inBlock]
    exact hb
  case program => exact halted_bind hb
  case frame =>
    rw [invoke, halted_inFrame]
    exact hb
  case load htarget hrunning =>
    rw [TagScript.fetch, halted_importModule htarget hrunning]
    refine halted_bind ?_
    rw [halted_whileLoading]
    exact hb
  case module hread hparse =>
    rw [halted_runModule hread hparse, hb]
    rfl

theorem CallStack.exits {a₀ a : Activation} {callers : List Activation}
    (h : CallStack a₀ callers a) {status : Int32} (ha : a.Exits status) : a₀.Exits status := by
  induction h with
  | base => exact ha
  | push _ hcall ih => exact ih (hcall.exits ha)

/-- The status that a program ends itself with. -/
def exitStatusOf (args : List Binding) : Int32 :=
  ((args.map Binding.value).head?.map fun v => exitStatus v.number).getD 0

/-- Somewhere on the way of an activation, in whatever blocks, calls and modules, the program ends
itself with a status. -/
def Activation.CallsExit (a₀ : Activation) (status : Int32) : Prop :=
  ∃ callers d callee es line start args after,
    CallStack a₀ callers ⟨.expr d (.call callee es line), start⟩ ∧
      start.functions.get? callee = some (.builtin .exit) ∧
        Expr.evalAll (invoke d) es start = .ok args after ∧ status = exitStatusOf args

theorem Activation.CallsExit.exits {a₀ : Activation} {status : Int32} (h : a₀.CallsExit status) :
    a₀.Exits status := by
  obtain ⟨callers, d, callee, es, line, start, args, after, hstack, hcallee, hargs, rfl⟩ := h
  refine hstack.exits ?_
  dsimp only [Activation.Exits, Task.halted]
  rw [Expr.eval, halted_get_bind, hcallee, halted_bind_of_ok hargs]
  rfl

theorem exists_of_halted {run : Run α} {m : Machine} {h : Halt} (hrun : halted run m = some h) :
    ∃ m', run m = .error h m' := by
  unfold halted at hrun
  split at hrun
  · cases hrun
  · next h' m' heq =>
    cases hrun
    exact ⟨m', heq⟩

/-! ### Files -/

theorem Error.Traced.of_insert {d : Disk} {loading : List String} {entry : String} {e : Error}
    (h : e.Traced d (loading.insert entry)) : e.Traced d loading ∧ entry ∉ e.chain := by
  refine ⟨⟨h.nodup, fun path hpath hmem => ?_, h.resolved, h.exit⟩, fun hmem => ?_⟩
  · exact h.unmarked path hpath (List.mem_insert_iff.2 (.inr hmem))
  · exact h.unmarked entry hmem (List.mem_insert_iff.2 (.inl rfl))

theorem runFile_traced {depth : Nat} {path : String} {m m' : Machine} {e : Error}
    (h : runFile depth path m = .error (.error e) m') : e.Traced m.disk m.loading ∧
      ∀ entry, m.disk.resolve path = .ok entry → entry ∉ e.chain := by
  -- what goes wrong before the script starts has no module around it
  have hbare : e.chain = [] → e.Traced m.disk m.loading ∧
      ∀ entry, m.disk.resolve path = .ok entry → entry ∉ e.chain := by
    intro hnil
    exact ⟨.of_chain_nil hnil, fun entry _ => by simp [hnil]⟩
  rw [runFile_apply] at h
  cases hresolve : m.disk.resolve path with
  | error reason =>
    rw [hresolve] at h hbare
    cases h
    exact hbare rfl
  | ok entry =>
    simp only [hresolve] at h
    cases hread : m.disk.readText entry with
    | error reason =>
      simp only [hread] at h
      cases h
      exact hresolve ▸ hbare rfl
    | ok source =>
      simp only [hread] at h
      cases hparse : Program.parse source with
      | error cause =>
        simp only [hparse] at h
        cases h
        exact hresolve ▸ hbare (unreadable_of_parse hparse).chain_eq_nil
      | ok p =>
        simp only [hparse] at h
        cases hrun : runProgram depth p (m.enterScript entry) with
        | ok u m₁ =>
          rw [hrun] at h
          cases h
        | error halt m₁ =>
          rw [hrun] at h
          cases h
          obtain ⟨htraced, -⟩ := runProgram_traced hrun e rfl
          obtain ⟨htraced, hentry⟩ := htraced.of_insert
          refine ⟨htraced, fun entry' heq => ?_⟩
          cases heq
          exact hentry

theorem runFile_exits {depth : Nat} {path : String} {m : Machine} {entry : Option String}
    {a₀ : Activation} {status : Int32} (hbegins : (HostOp.runFile depth path).Begins m entry a₀)
    (h : a₀.CallsExit status) : ∃ m', runFile depth path m = .error (.error (.exit status)) m' := by
  cases hbegins with
  | runFile hresolve hread hparse =>
    obtain ⟨m', hrun⟩ := exists_of_halted h.exits
    simp only [runFile_apply, hresolve, hread, hparse]
    rw [runProgram, hrun]
    exact ⟨_, rfl⟩

/-- The shape of errors across imports, of programs and of files, and that exits arrive as they
are. -/
theorem error_chain (depth : Nat) (m : Machine) :
    (∀ p e m', runProgram depth p m = .error (.error e) m' →
      e.Traced m.disk m.loading ∧ (e.innermost.Unreadable → e.chain ≠ [])) ∧
    (∀ path e m', runFile depth path m = .error (.error e) m' →
      e.Traced m.disk m.loading ∧ ∀ entry, m.disk.resolve path = .ok entry → entry ∉ e.chain) ∧
    (∀ p status, Activation.CallsExit ⟨.program depth p, m⟩ status →
      ∃ m', runProgram depth p m = .error (.error (.exit status)) m') ∧
    ∀ path entry a₀ status, (HostOp.runFile depth path).Begins m entry a₀ →
      a₀.CallsExit status → ∃ m', runFile depth path m = .error (.error (.exit status)) m' := by
  refine ⟨fun p e m' h => runProgram_traced h e rfl, fun path e m' h => runFile_traced h,
    fun p status h => ?_, fun path entry a₀ status hbegins h => runFile_exits hbegins h⟩
  exact exists_of_halted h.exits

/-- A file that cannot be read, imported and run, and a program that ends itself. -/
theorem error_chain_unreadable :
    let m : Machine := { disk := { resolve := fun _ => .ok "/a", read := fun _ => .ok "$".toUTF8 } }
    let cause : Error := .lex (.unexpectedCharacter '$' 1)
    let e : Error := .inModule "/a" 1 cause
    (runProgram 1 ⟨[.fetch "/a" 1]⟩ m = .error (.error e) m ∧ e.Traced m.disk m.loading) ∧
    (runFile 1 "/a" m = .error (.error cause) m ∧ cause.Traced m.disk m.loading) ∧
    ∃ m', runProgram 1 ⟨[.expression (.call "sys_exit" [] 1) 1]⟩ m =
      .error (.error (.exit 0)) m' := by
  intro m cause e
  have hread : m.disk.readText "/a" = .ok "$" := rfl
  have hparse : Program.parse "$" = .error cause := by
    rw [Program.parse, show lex "$" = .error (.unexpectedCharacter '$' 1) by decide +kernel]
  have htarget : m.target "/a" = .ok "/a" := by
    have hslash : ("/a".any fun c => c == '/' || c == '\\') = true :=
      String.contains_bool_eq.trans rfl
    unfold Machine.target Machine.locate
    rw [if_pos hslash]
  have hfetch : fetch 1 "/a" 1 m = .error (.error e) m := by
    rw [fetch_succ]
    simp only [htarget, hread, hparse]
    rfl
  have hrun : runProgram 1 ⟨[.fetch "/a" 1]⟩ m = .error (.error e) m := by
    refine bind_eq_of_error ?_
    rw [Stmt.execAll]
    refine bind_eq_of_error ?_
    rw [Stmt.exec]
    exact bind_eq_of_error hfetch
  have hfile : runFile 1 "/a" m = .error (.error cause) m := by
    have hresolve : m.disk.resolve "/a" = .ok "/a" := rfl
    simp only [runFile_apply, hresolve, hread, hparse]
  have hexit : m.functions.get? "sys_exit" = some (.builtin .exit) := rfl
  have hcalls : Activation.CallsExit ⟨.program 1 ⟨[.expression (.call "sys_exit" [] 1) 1]⟩, m⟩ 0 :=
    ⟨_, 1, "sys_exit", [], 1, m, [], m,
      ((CallStack.base.push .program).push .first).push .expression, hexit, rfl, rfl⟩
  obtain ⟨hprogram, hscript, hends, -⟩ := error_chain 1 m
  exact ⟨⟨hrun, (hprogram _ e m hrun).1⟩, ⟨hfile, (hscript _ cause m hfile).1⟩, hends _ 0 hcalls⟩

end TagScript
