import TagScript.Proofs.Import
import TagScript.Proofs.ScopeUse

/-!
# The import stack

The paths marked as loading are those of the modules and of the entry script that are executing:
`session_guarded` says so for every moment of every session, and that no path executes twice at a
time. So a path that is not on the stack is never taken for one that is running, and what has failed
or finished can be imported again.

A moment is the start or the finish of an activation, with the activations that called it still on
the stack. Marks are set and taken away, and the current module changes, only where an activation
starts or has finished, so no state of either is missed.

The invariant is `Guarded`, relative to the paths on the stack. `Guarded.call` is the step from an
activation to one that it calls and `CallStack.guarded` the whole stack. What an activation has done
between two calls does not matter: by `closed_fixed` a finished call leaves marks and current module
as it found them.
-/

namespace TagScript

open Activation

/-! ### Moments -/

/-- The activation `a₀` has led to `a`, which is running, by the calls of `callers`, the newest
first. -/
inductive CallStack (a₀ : Activation) : List Activation → Activation → Prop
  | base : CallStack a₀ [] a₀
  | push {callers : List Activation} {a b : Activation} : CallStack a₀ callers a → a.Calls b →
    CallStack a₀ (a :: callers) b

/-- What hands down from callers to what they call holds all the way up a stack. -/
theorem ClosedFrom.stack {ok : Activation → Prop} {R : Machine → Machine → Prop}
    (hR : ClosedFrom ok R) {a₀ a : Activation} {callers : List Activation}
    (h : CallStack a₀ callers a) (h₀ : ok a₀) : ok a := by
  induction h with
  | base => exact h₀
  | push _ hcall ih => exact hR.call ih hcall

/-- The paths that are executing: those of the loads on a stack, and below them the entry script. -/
def executing (entry : Option String) (stack : List Activation) : List String :=
  stack.filterMap (·.task.path?) ++ entry.toList

/-- What the host of a machine can do to it. -/
inductive HostOp where
  | run (depth : Nat) (p : Program)
  | runFile (depth : Nat) (path : String)
  /-- An expression, in scopes of the host. -/
  | eval (depth : Nat) (scopes : List Scope) (e : Expr)
  | defineConstant (name : String) (value : Value)
  | setDevices (console : Console) (disk : Disk) (draws : Draws)

/-- The machine that an entry script starts in. -/
def Machine.enterScript (m : Machine) (path : String) : Machine :=
  { m.mark path with current := some path }

namespace HostOp

/-- The machine after an operation, whether it succeeds or fails. -/
def after : HostOp → Machine → Machine
  | run depth p, m => TagScript.after (runProgram depth p) m
  | runFile depth path, m => TagScript.after (TagScript.runFile depth path) m
  | eval depth scopes e, m =>
    { TagScript.after (e.eval (invoke depth)) { m with scopes } with scopes := m.scopes }
  | defineConstant name value, m => m.defineConstant name value
  | setDevices console disk draws, m => { m with console, disk, draws }

/-- The activation that an operation begins, and the entry script that it is the run of. -/
inductive Begins (m : Machine) : HostOp → Option String → Activation → Prop
  | run {depth p} : Begins m (.run depth p) none ⟨.program depth p, m⟩
  | runFile {depth path resolved source p} : m.disk.resolve path = .ok resolved →
    m.disk.readText resolved = .ok source → Program.parse source = .ok p →
      Begins m (.runFile depth path) (some resolved) ⟨.program depth p, m.enterScript resolved⟩
  | eval {depth scopes e} : Begins m (.eval depth scopes e) none ⟨.expr depth e, { m with scopes }⟩

/-- While the host does `op` to `m` there is a moment at which the machine is `m'` and exactly the
listed paths are executing. -/
inductive Moment (op : HostOp) (m : Machine) : List String → Machine → Prop
  | start {entry a₀ callers a} : op.Begins m entry a₀ → CallStack a₀ callers a →
    Moment op m (executing entry (a :: callers)) a.start
  | finish {entry a₀ callers a} : op.Begins m entry a₀ → CallStack a₀ callers a →
    Moment op m (executing entry (a :: callers)) a.finish

end HostOp

/-- The machine after a session of operations, which started with a registry and nothing else. -/
def session (registry : Registry) (ops : List HostOp) : Machine :=
  ops.foldl (fun m op => op.after m) { registry }

/-! ### The invariant -/

/-- Exactly the paths of `paths` are marked as loading, each once, and the current module is one of
them. -/
structure Guarded (paths : List String) (m : Machine) : Prop where
  loading : m.loading = paths
  nodup : paths.Nodup
  current : ∀ path, m.current = some path → path ∈ paths

namespace Guarded

variable {paths : List String} {m m' : Machine} {path : String}

theorem fixed (h : Guarded paths m) (hfixed : m.Fixed m') : Guarded paths m' :=
  ⟨hfixed.loading.trans h.loading, h.nodup, fun path hpath =>
    h.current path (hfixed.current ▸ hpath)⟩

theorem isRunning_iff (h : Guarded paths m) : m.isRunning path = true ↔ path ∈ paths := by
  rw [Machine.isRunning_iff, h.loading]
  exact or_iff_right_of_imp (h.current path)

theorem enterScript (h : Guarded [] m) : Guarded [path] (m.enterScript path) := by
  refine ⟨?_, List.pairwise_singleton _ path, ?_⟩
  · show m.loading.insert path = [path]
    rw [h.loading]
    rfl
  · rintro p hp
    obtain rfl : path = p := Option.some.inj hp
    exact List.mem_singleton_self path

theorem mark (h : Guarded paths m) (hrunning : m.isRunning path = false) :
    Guarded (path :: paths) (m.mark path) := by
  have hnot : path ∉ paths := by
    rw [← h.loading]
    exact Machine.not_mem_loading hrunning
  refine ⟨?_, List.nodup_cons.2 ⟨hnot, h.nodup⟩, fun p hp => ?_⟩
  · show m.loading.insert path = path :: paths
    rw [h.loading, List.insert_of_not_mem hnot]
  · exact List.mem_cons_of_mem _ (h.current p hp)

theorem forModule (h : Guarded paths m) (hpath : path ∈ paths) :
    Guarded paths (m.forModule path) := by
  refine ⟨h.loading, h.nodup, fun p hp => ?_⟩
  obtain rfl : path = p := Option.some.inj hp
  exact hpath

theorem call {a b : Activation} (h : Guarded paths a.start)
    (hpath : ∀ path, a.task.path? = some path → path ∈ paths) (hcall : a.Calls b) :
    Guarded (b.task.path?.toList ++ paths) b.start := by
  -- the machine of a call is the caller's own, or the one that an earlier call of it has left
  have hexpr {d : Nat} {e : Expr} {v : Value} {m m' : Machine} (hm : Guarded paths m)
      (he : e.eval (invoke d) m = .ok v m') : Guarded paths m' :=
    hm.fixed (after_of_ok he ▸ closed_fixed.run ⟨.expr d e, m⟩)
  cases hcall with
  | right he | nextArgs he => exact hexpr h he
  | body he _ | alternate he _ => exact hexpr h he
  | @call d _ es _ m m' _ _ _ _ hes =>
    exact h.fixed (after_of_ok hes ▸ closed_fixed.run ⟨.exprs d es, m⟩)
  | @next d s _ m m' hs => exact h.fixed (after_of_ok hs ▸ closed_fixed.run ⟨.stmt d s, m⟩)
  | inside | frame => exact ⟨h.loading, h.nodup, h.current⟩
  | load _ hrunning => exact h.mark hrunning
  | module => exact h.forModule (hpath _ rfl)
  | _ => exact h

end Guarded

/-! ### Sessions -/

theorem executing_cons (entry : Option String) (a : Activation) (stack : List Activation) :
    executing entry (a :: stack) = a.task.path?.toList ++ executing entry stack := by
  unfold executing
  rw [List.filterMap_cons]
  cases a.task.path? <;> rfl

theorem after_asEntry (path : String) (run : Run Unit) (m : Machine) :
    after (asEntry path run) m =
      let m' := after run (m.enterScript path)
      { m'.unmark path with current := m.current } := by
  unfold after asEntry whileLoading Machine.enterScript
  dsimp only
  cases run { m.mark path with current := some path } <;> rfl

/-- The machine after an entry script that ended in `m'`. -/
def Machine.leaveScript (m m' : Machine) (path : String) : Machine :=
  { m'.unmark path with current := m.current }

/-- The run of a file up to where its script is run. -/
theorem runFile_apply (depth : Nat) (path : String) (m : Machine) : runFile depth path m =
    match m.disk.resolve path with
    | .error reason => .error (.error (.run 0 (.moduleRead path reason))) m
    | .ok resolved =>
      match m.disk.readText resolved with
      | .error reason => .error (.error (.run 0 (.moduleRead path reason))) m
      | .ok source =>
        match Program.parse source with
        | .error e => .error (.error e) m
        | .ok p =>
          mapMachine (m.leaveScript · resolved) (runProgram depth p (m.enterScript resolved)) := by
  show (match m.disk.resolve path with
    | .error reason => _
    | .ok resolved => _ : Run Unit) m = _
  cases m.disk.resolve path with
  | error reason => rfl
  | ok resolved =>
    dsimp only
    cases m.disk.readText resolved with
    | error reason => rfl
    | ok source =>
      dsimp only
      cases Program.parse source with
      | error e => rfl
      | ok p =>
        dsimp only
        unfold asEntry whileLoading Machine.enterScript
        dsimp only
        cases runProgram depth p { m.mark resolved with current := some resolved } <;> rfl

theorem CallStack.guarded {entry : Option String} {a₀ a : Activation} {callers : List Activation}
    (h : CallStack a₀ callers a) (h₀ : Guarded (executing entry [a₀]) a₀.start) :
    Guarded (executing entry (a :: callers)) a.start := by
  induction h with
  | base => exact h₀
  | @push callers a b _ hcall ih =>
    have hpath : ∀ path, a.task.path? = some path → path ∈ executing entry (a :: callers) := by
      intro path hpath
      rw [executing_cons, hpath]
      exact List.mem_append_left _ (List.mem_singleton_self path)
    rw [executing_cons]
    exact ih.call hpath hcall

namespace HostOp

variable {m m' : Machine} {op : HostOp}

theorem Begins.guarded {entry : Option String} {a : Activation} (h : op.Begins m entry a)
    (hm : Guarded [] m) : Guarded (executing entry [a]) a.start := by
  cases h with
  | run => exact hm
  | runFile => exact hm.enterScript
  | eval => exact ⟨hm.loading, hm.nodup, hm.current⟩

theorem Moment.guarded {paths : List String} (h : op.Moment m paths m') (hm : Guarded [] m) :
    Guarded paths m' := by
  cases h with
  | start hbegins hstack => exact hstack.guarded (hbegins.guarded hm)
  | @finish _ _ _ a hbegins hstack =>
    exact (hstack.guarded (hbegins.guarded hm)).fixed (closed_fixed.run a)

/-- The run of a file either ends before its script starts or is the run of the script. -/
theorem after_runFile (depth : Nat) (path : String) (m : Machine) :
    TagScript.after (TagScript.runFile depth path) m = m ∨
      ∃ resolved p, (runFile depth path).Begins m (some resolved)
          ⟨.program depth p, m.enterScript resolved⟩ ∧
        TagScript.after (TagScript.runFile depth path) m =
          let m' := TagScript.after (runProgram depth p) (m.enterScript resolved)
          { m'.unmark resolved with current := m.current } := by
  rw [TagScript.runFile, after_get_bind]
  dsimp only
  split
  · exact .inl rfl
  · next resolved hresolve =>
    split
    · exact .inl rfl
    · next source hread =>
      split
      · exact .inl rfl
      · next p hparse => exact .inr ⟨resolved, p, .runFile hresolve hread hparse, after_asEntry ..⟩

theorem guarded_after (op : HostOp) (hm : Guarded [] m) : Guarded [] (op.after m) := by
  cases op with
  | run depth p => exact hm.fixed (closed_fixed.run ⟨.program depth p, m⟩)
  | runFile depth path =>
    rw [HostOp.after]
    rcases after_runFile depth path m with h | ⟨resolved, p, hbegins, h⟩
    · rw [h]
      exact hm
    · have hfinish :
          Guarded [resolved] (TagScript.after (runProgram depth p) (m.enterScript resolved)) :=
        (hbegins.guarded hm).fixed (closed_fixed.run ⟨.program depth p, m.enterScript resolved⟩)
      rw [h]
      refine ⟨?_, hm.nodup, hm.current⟩
      show List.erase _ resolved = []
      rw [hfinish.loading]
      exact List.erase_cons_head ..
  | eval depth scopes e =>
    have hfixed := closed_fixed.run ⟨.expr depth e, { m with scopes }⟩
    exact hm.fixed ⟨hfixed.registry, hfixed.disk, hfixed.loading, hfixed.current⟩
  | defineConstant name value => exact ⟨hm.loading, hm.nodup, hm.current⟩
  | setDevices console disk draws => exact ⟨hm.loading, hm.nodup, hm.current⟩

end HostOp

theorem guarded_session (registry : Registry) (ops : List HostOp) :
    Guarded [] (session registry ops) := by
  have hstart : Guarded [] { registry } := ⟨rfl, .nil, nofun⟩
  unfold session
  generalize ({ registry } : Machine) = m at hstart ⊢
  induction ops generalizing m with
  | nil => exact hstart
  | cons op rest ih => exact ih _ (op.guarded_after hstart)

/-- Between operations nothing is executing, and at each moment of the next one exactly the paths on
the stack are marked and skipped by imports. -/
theorem session_guarded (registry : Registry) (ops : List HostOp) :
    (session registry ops).loading = [] ∧ (session registry ops).current = none ∧
      (∀ path, (session registry ops).isRunning path = false) ∧
      ∀ (op : HostOp) paths m, op.Moment (session registry ops) paths m →
        m.loading = paths ∧ paths.Nodup ∧ (∀ path, m.current = some path → path ∈ m.loading) ∧
          ∀ path, m.isRunning path = true ↔ path ∈ paths := by
  have hsession := guarded_session registry ops
  refine ⟨hsession.loading, ?_, fun path => ?_, fun op paths m hmoment => ?_⟩
  · cases hcurrent : (session registry ops).current with
    | none => rfl
    | some path => cases hsession.current path hcurrent
  · cases hrunning : (session registry ops).isRunning path with
    | false => rfl
    | true => cases hsession.isRunning_iff.1 hrunning
  · have hm := hmoment.guarded hsession
    refine ⟨hm.loading, hm.nodup, fun path hpath => ?_, fun path => hm.isRunning_iff⟩
    rw [hm.loading]
    exact hm.current path hpath

/-- A disk on which every text names the same empty file. -/
def oneFile : Disk where
  resolve _ := .ok "/b"
  read _ := .ok .empty

/-- A program imports the module that the registry names `b`: when the module starts to load, its
path is executing, and a second import of it would be skipped. -/
theorem session_guarded_import :
    ∃ m, (HostOp.run 1 ⟨[.fetch "b" 1]⟩).Moment
        (session (Table.empty.insert "b" "/b") [.setDevices {} oneFile {}]) ["/b"] m ∧
      m.loading = ["/b"] ∧ m.isRunning "/b" = true := by
  have htarget : (session (Table.empty.insert "b" "/b") [.setDevices {} oneFile {}]).target "b" =
      .ok "/b" := by
    unfold Machine.target Machine.locate
    cases "b".any fun c => c == '/' || c == '\\' <;> rfl
  have hbegins : (HostOp.run 1 ⟨[.fetch "b" 1]⟩).Begins
      (session (Table.empty.insert "b" "/b") [.setDevices {} oneFile {}]) none _ := .run
  have hmoment := HostOp.Moment.start hbegins
    ((((CallStack.base.push .program).push .first).push .fetch).push (.load htarget rfl))
  refine ⟨_, hmoment, ?_⟩
  obtain ⟨hloading, -, -, hrunning⟩ := (session_guarded _ _).2.2.2 _ _ _ hmoment
  exact ⟨hloading, (hrunning "/b").2 (List.mem_singleton_self _)⟩

end TagScript
