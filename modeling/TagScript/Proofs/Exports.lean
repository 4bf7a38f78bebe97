import TagScript.Proofs.FunctionTable
import TagScript.Proofs.Limits

/-!
# Exports are what was launched

Functions and exports are added and replaced but never taken away, and exports change by launch
statements only. `exports_follow_launches`: what a run exports by a name is what the name stood for
when the run launched it the last time, a function or else a global with its value and tag of that
moment. What happens to the function or the variable later does not matter.

The launches of a run are those of `Activation.launches`, in the order of time. A module that the
run imports has exports of its own and its launches do not count. `Activation.exports_finish` says
that the exports after a run are those before it with the launches put in, one after the other.
-/

namespace TagScript

open Activation Relation

/-! ### Launches -/

/-- A name is launched in a machine, where it stands for an item. -/
structure Launch where
  machine : Machine
  name : String
  item : Export
  known : machine.export? name = some item

/-- The launches of a list of names, up to the first that is unknown. -/
def Machine.launches (m : Machine) : List String → List Launch
  | [] => []
  | name :: rest =>
    match h : m.export? name with
    | some item => ⟨m, name, item, h⟩ :: m.launches rest
    | none => []

/-- The last of several launches that is of a name. -/
def lastLaunch? (name : String) (launches : List Launch) : Option Launch :=
  launches.reverse.find? (·.name == name)

/-- Exports with launches put in, one after the other. -/
def Table.launchAll (exports : Table Export) (launches : List Launch) : Table Export :=
  launches.foldl (fun exports l => exports.insert l.name l.item) exports

section

variable {m : Machine} {name : String}

theorem Machine.launches_cons {item : Export} (h : m.export? name = some item)
    (rest : List String) : m.launches (name :: rest) = ⟨m, name, item, h⟩ :: m.launches rest := by
  rw [launches]
  split
  · next item' h' =>
    obtain rfl := Option.some.inj (h.symm.trans h')
    rfl
  · next h' => cases h.symm.trans h'

theorem Machine.launches_unknown (h : m.export? name = none) (rest : List String) :
    m.launches (name :: rest) = [] := by
  rw [launches]
  split
  · next h' => cases h.symm.trans h'
  · rfl

theorem Machine.mem_launches {names : List String} {l : Launch} (h : l ∈ m.launches names) :
    l.machine = m ∧ l.name ∈ names := by
  induction names with
  | nil => cases h
  | cons name rest ih =>
    cases hitem : m.export? name with
    | none =>
      rw [launches_unknown hitem] at h
      cases h
    | some item =>
      rw [launches_cons hitem] at h
      rcases List.mem_cons.1 h with rfl | h
      · exact ⟨rfl, List.mem_cons_self ..⟩
      · exact ⟨(ih h).1, List.mem_cons_of_mem _ (ih h).2⟩

end

theorem Table.launchAll_append (exports : Table Export) (launches more : List Launch) :
    exports.launchAll (launches ++ more) = (exports.launchAll launches).launchAll more :=
  List.foldl_append

theorem lastLaunch?_eq_some {name : String} {launches : List Launch} {l : Launch}
    (h : lastLaunch? name launches = some l) :
    l ∈ launches ∧ l.machine.export? name = some l.item := by
  have hname : l.name = name := by simpa using List.find?_some h
  refine ⟨List.mem_reverse.1 (List.mem_of_find?_eq_some h), ?_⟩
  rw [← hname]
  exact l.known

/-- The last launch of a name counts. -/
theorem Table.get?_launchAll (exports : Table Export) (launches : List Launch) (name : String) :
    (exports.launchAll launches).get? name =
      ((lastLaunch? name launches).map Launch.item).or (exports.get? name) := by
  unfold lastLaunch? launchAll
  rw [← List.foldr_reverse]
  induction launches.reverse with
  | nil => rfl
  | cons l rest ih =>
    rw [List.foldr_cons, Table.get?_insert]
    by_cases hname : l.name = name
    · rw [if_pos hname, List.find?_cons_of_pos (by simpa using hname)]
      rfl
    · rw [if_neg hname, List.find?_cons_of_neg (by simpa using hname), ih]

/-- Launching names puts their launches into the exports and changes nothing else. -/
theorem after_launchNames (line : Nat) (names : List String) (m : Machine)
    (exports : Table Export) : after (launchNames line names) { m with exports } =
      { m with exports := exports.launchAll (m.launches names) } := by
  induction names generalizing exports with
  | nil => rfl
  | cons name rest ih =>
    have hsame : Machine.export? { m with exports } name = m.export? name := rfl
    rw [launchNames, after_get_bind, hsame]
    cases hitem : m.export? name with
    | none =>
      rw [Machine.launches_unknown hitem]
      rfl
    | some item =>
      rw [Machine.launches_cons hitem]
      exact ih (exports.insert name item)

/-! ### Launches of a run -/

namespace Task

/-- The launches that a task makes itself. -/
def launches : Task → Machine → List Launch
  | stmt _ (.launch names _), m => m.launches names
  | _, _ => []

theorem mem_launches {task : Task} {m : Machine} {l : Launch} (h : l ∈ task.launches m) :
    ∃ d names line, task = stmt d (.launch names line) ∧ l.machine = m ∧ l.name ∈ names := by
  unfold launches at h
  split at h
  · next d names line => exact ⟨d, names, line, rfl, Machine.mem_launches h⟩
  · cases h

/-- A task that runs a module, with exports of its own. -/
def isImport : Task → Bool
  | fetch _ _ _ | load _ _ _ => true
  | _ => false

end Task

namespace Activation

/-- The launches of a run, in the order of time. -/
def launches (a : Activation) : List Launch :=
  (if a.task.isImport then [] else a.calls.attach.flatMap fun b => launches b.1) ++
    a.task.launches a.start
termination_by a.task.rank
decreasing_by exact (calls_of_mem b.2).rank_lt

theorem launches_eq (a : Activation) : a.launches =
    (if a.task.isImport then [] else a.calls.flatMap launches) ++ a.task.launches a.start := by
  rw [launches, List.flatMap_subtype, List.unattach_attach]
  exact fun _ _ => rfl

end Activation

theorem CallStack.cons {a b c : Activation} {callers : List Activation} (hcall : a.Calls b)
    (h : CallStack b callers c) : CallStack a (callers ++ [a]) c := by
  induction h with
  | base => exact .push .base hcall
  | push _ hnext ih => exact .push ih hnext

/-- Each launch is made by a launch statement on the way. -/
theorem Activation.mem_launches (a : Activation) {l : Launch} (h : l ∈ a.launches) :
    ∃ callers d names line, CallStack a callers ⟨.stmt d (.launch names line), l.machine⟩ ∧
      l.name ∈ names := by
  rw [launches_eq] at h
  rcases List.mem_append.1 h with h | h
  · split at h
    · cases h
    · obtain ⟨b, hb, hl⟩ := List.mem_flatMap.1 h
      obtain ⟨callers, d, names, line, hstack, hname⟩ := b.mem_launches hl
      exact ⟨_, d, names, line, .cons (calls_of_mem hb) hstack, hname⟩
  · obtain ⟨task, m⟩ := a
    obtain ⟨d, names, line, rfl, rfl, hname⟩ := Task.mem_launches h
    exact ⟨[], d, names, line, .base, hname⟩
termination_by a.task.rank
decreasing_by exact (calls_of_mem hb).rank_lt

/-! ### Exports after a run -/

/-- Several activations in a row put in their launches in a row. -/
theorem Linked.exports {m m' : Machine} {bs : List Activation} (h : Linked m bs m')
    (hbs : ∀ b ∈ bs, b.finish.exports = b.start.exports.launchAll b.launches) :
    m'.exports = m.exports.launchAll (bs.flatMap Activation.launches) := by
  induction h with
  | nil => rfl
  | @cons b bs m' _ ih =>
    rw [List.flatMap_cons, Table.launchAll_append, ← hbs b (List.mem_cons_self ..)]
    exact ih fun c hc => hbs c (List.mem_cons_of_mem _ hc)

/-- All but launch statements leave the exports to what they call. -/
theorem Activation.Acts.exports {a : Activation} {m m' : Machine}
    (hother : ∀ d names line, a.task ≠ .stmt d (.launch names line)) (h : a.Acts m m') :
    m'.exports = m.exports := by
  cases h with
  | builtin _ h => cases h <;> rfl
  | declare value =>
    obtain ⟨globals, scopes, heq⟩ := m.declare_eq _ (.slot value _)
    rw [heq]
  | assign h =>
    obtain ⟨globals, scopes, rfl⟩ := Machine.assign_eq h
    rfl
  | define => rfl
  | launch => exact (hother _ _ _ rfl).elim

theorem exports_of_acts {a : Activation} {m m' : Machine}
    (hother : ∀ d names line, a.task ≠ .stmt d (.launch names line))
    (h : ReflTransGen a.Acts m m') : m'.exports = m.exports := by
  induction h with
  | refl => rfl
  | tail _ hact ih => rw [hact.exports hother, ih]

theorem exports_after_fetch (d : Nat) (requested : String) (line : Nat) (m : Machine) :
    (after (fetch d requested line) m).exports = m.exports := by
  cases h : fetch d requested line m with
  | error halt m' =>
    rw [after_of_error h, fetch_error h]
    rfl
  | ok u m' =>
    rw [after_of_ok h]
    obtain ⟨-, -, rfl⟩ | ⟨module, -, htakes⟩ := fetch_ok h
    · rfl
    · rw [htakes.rest]
      rfl

theorem exports_after_runModule (run : Program → Run Unit) (path : String) (line : Nat)
    (m : Machine) : (after (runModule run path line) m).exports = m.exports := by
  unfold after runModule
  cases m.disk.readText path with
  | error reason => rfl
  | ok source =>
    dsimp only
    cases Program.parse source with
    | error e => rfl
    | ok p =>
      dsimp only
      cases run p (m.forModule path) <;> rfl

namespace Activation

theorem exports_finish_launch (d : Nat) (names : List String) (line : Nat) (m : Machine) :
    finish ⟨.stmt d (.launch names line), m⟩ =
      { m with exports := m.exports.launchAll (launches ⟨.stmt d (.launch names line), m⟩) } := by
  show after (Stmt.exec _ _ (.launch names line)) m = _
  rw [launches_eq, Stmt.exec, after_bind_pure]
  exact after_launchNames line names m m.exports

theorem exports_finish_plain {a : Activation} (h : a.task.Plain)
    (hother : ∀ d names line, a.task ≠ .stmt d (.launch names line))
    (hcalls : ∀ b, a.Calls b → b.finish.exports = b.start.exports.launchAll b.launches) :
    a.finish.exports = a.start.exports.launchAll a.launches := by
  obtain ⟨m, hlinked, hacts⟩ := a.course h
  have hown : a.task.launches a.start = [] := by
    refine List.eq_nil_iff_forall_not_mem.2 fun l hl => ?_
    obtain ⟨d, names, line, heq, -⟩ := Task.mem_launches hl
    exact hother d names line heq
  have himport : ¬ a.task.isImport := by
    cases htask : a.task <;> simp [htask, Task.Plain, Task.isImport] at h ⊢
  rw [exports_of_acts hother hacts, launches_eq, if_neg himport, hown, List.append_nil]
  exact hlinked.exports fun b hb => hcalls b (calls_of_mem hb)

/-- A run exports what it did before, with its launches put in. -/
theorem exports_finish (a : Activation) :
    a.finish.exports = a.start.exports.launchAll a.launches := by
  -- by recursion on the rank: what is called is smaller
  have hcalls : ∀ b, a.Calls b → b.finish.exports = b.start.exports.launchAll b.launches :=
    fun b _ => b.exports_finish
  obtain ⟨task, m⟩ := a
  cases task with
  | expr | exprs | stmts | program => exact exports_finish_plain trivial nofun hcalls
  | stmt d s =>
    cases s with
    | launch names line => rw [exports_finish_launch]
    | _ => exact exports_finish_plain trivial nofun hcalls
  | block d b =>
    obtain ⟨ss, line⟩ := b
    have hlaunches : launches ⟨.block d (.mk ss line), m⟩ =
        launches ⟨.stmts d ss, { m with scopes := ∅ :: m.scopes }⟩ := by
      rw [launches_eq]
      simp [calls, Task.calls, Task.isImport, Task.launches, Block.statements]
    show (after (Block.exec _ _ (.mk ss line)) m).exports = _
    rw [hlaunches, Block.exec, after_inBlock]
    exact hcalls _ .inside
  | call d f args =>
    cases d with
    | zero =>
      show (after (invoke 0 f args) m).exports = _
      rw [launches_eq, invoke]
      rfl
    | succ d =>
      have hlaunches : launches ⟨.call (d + 1) f args, m⟩ =
          launches ⟨.block d f.body, { m with scopes := [frame f.params args] }⟩ := by
        rw [launches_eq]
        simp [calls, Task.calls, Task.isImport, Task.launches]
      show (after (invoke (d + 1) f args) m).exports = _
      rw [hlaunches, invoke, after_inFrame]
      exact hcalls _ .frame
  | fetch d requested line =>
    rw [launches_eq]
    exact exports_after_fetch d requested line m
  | load d path line =>
    rw [launches_eq]
    exact exports_after_runModule _ path line m
termination_by a.task.rank
decreasing_by exact Calls.rank_lt ‹_›

end Activation

/-! ### Names in the exports -/

namespace Activation

variable {a : Activation} {name : String}

/-- An export is what its name stood for at the last launch, if there was one. -/
theorem get?_exports_finish (a : Activation) (name : String) :
    a.finish.exports.get? name = match lastLaunch? name a.launches with
      | some l => l.machine.export? name
      | none => a.start.exports.get? name := by
  rw [a.exports_finish, Table.get?_launchAll]
  cases hlast : lastLaunch? name a.launches with
  | none => rfl
  | some l => exact (lastLaunch?_eq_some hlast).2.symm

theorem contains_exports_finish (h : a.start.exports.contains name = true) :
    a.finish.exports.contains name = true := by
  unfold Table.contains at h ⊢
  rw [a.exports_finish, Table.get?_launchAll]
  cases lastLaunch? name a.launches with
  | none => exact h
  | some l => rfl

/-- A name that no code launches is exported as before. -/
theorem get?_exports_unlaunched (h : a.Obeys { launch := (· ≠ name) }) :
    a.finish.exports.get? name = a.start.exports.get? name := by
  rw [get?_exports_finish]
  cases hlast : lastLaunch? name a.launches with
  | none => rfl
  | some l =>
    have hname : l.name = name := by simpa using List.find?_some hlast
    obtain ⟨callers, d, names, line, hstack, hmem⟩ := a.mem_launches (lastLaunch?_eq_some hlast).1
    have hstmt := (closedFrom_obeys { launch := (· ≠ name) }).stack hstack h
    exact (hstmt.task.launched l.name hmem hname).elim

end Activation

theorem allow_unlaunched {name : String} {launched : List String} (h : name ∉ launched)
    (called fetched : List String) :
    Limits.Allow { launch := (· ≠ name) } called fetched launched :=
  ⟨fun _ _ => trivial, fun _ _ => trivial, fun _ hmem heq => h (heq ▸ hmem)⟩

/-- No run takes a function or an export away. Every built-in name can be called at all times, in an
entry program and in the modules that it imports. An export changes only if some code launches its
name, and it is what the name stood for at the last launch that reached it. -/
theorem exports_follow_launches (depth : Nat) (p : Program) (m : Machine) :
    let m' := after (runProgram depth p) m
    let launches := Activation.launches ⟨.program depth p, m⟩
    (∀ name, m.functions.contains name = true → m'.functions.contains name = true) ∧
    (∀ registry ops, (session registry ops).Stocked ∧
      ∀ (op : HostOp) paths k, op.Moment (session registry ops) paths k → k.Stocked) ∧
    (∀ name, m.exports.contains name = true → m'.exports.contains name = true) ∧
    (∀ name, name ∉ p.launched →
      (∀ callee f, m.functions.get? callee = some (.user f) → name ∉ f.body.launched) →
        (∀ q, m.disk.Holds q → name ∉ q.launched) →
          m'.exports.get? name = m.exports.get? name) ∧
    (∀ l ∈ launches, ∃ callers d names line,
      CallStack ⟨.program depth p, m⟩ callers ⟨.stmt d (.launch names line), l.machine⟩ ∧
        l.name ∈ names) ∧
    ∀ name, m'.exports.get? name = match lastLaunch? name launches with
      | some l => l.machine.export? name
      | none => m.exports.get? name := by
  intro m' launches
  refine ⟨closed_functionsGrow.run ⟨.program depth p, m⟩, fun registry ops => ?_, fun name => ?_,
    fun name hp hbodies hfiles => ?_, fun l => Activation.mem_launches _, fun name => ?_⟩
  · have hsession := tableInvariant_stocked.session registry ops
    exact ⟨hsession, fun op paths k hmoment => tableInvariant_stocked.moment hmoment hsession⟩
  · exact Activation.contains_exports_finish (a := ⟨.program depth p, m⟩)
  · have hobeys : m.Obeys { launch := (· ≠ name) } := Machine.obeys_of_bodies (fun _ _ _ => id)
      (fun callee f hf => allow_unlaunched (hbodies callee f hf) _ _)
      (fun _ q _ hq => allow_unlaunched (hfiles q hq) _ _)
    exact Activation.get?_exports_unlaunched (a := ⟨.program depth p, m⟩)
      ⟨allow_unlaunched hp _ _, hobeys⟩
  · exact Activation.get?_exports_finish ⟨.program depth p, m⟩ name

/-- A variable is launched and then set. It is exported as it was, and an export that was there
before is not touched. -/
theorem exports_follow_launches_set :
    let before : Export := .global (.slot .null none)
    let m : Machine := { exports := Table.empty.insert "y" before }
    let p : Program := ⟨[.declare .num "x" (.literal (.integer 1) 1) 1, .launch ["x"] 2,
      .set "x" (.literal (.integer 2) 3) 3]⟩
    let m' := after (runProgram 0 p) m
    "y" ∉ p.launched ∧
      (∀ callee f, m.functions.get? callee = some (.user f) → "y" ∉ f.body.launched) ∧
      (∀ q, m.disk.Holds q → "y" ∉ q.launched) ∧
      m'.globals.get? "x" = some (.slot (.integer 2) (some (.ofType .num))) ∧
      m'.exports.get? "x" = some (.global (.slot (.integer 1) (some (.ofType .num)))) ∧
      m'.exports.get? "y" = some before := by
  intro before m p m'
  have hp : "y" ∉ p.launched := by decide
  have hbodies : ∀ callee f, m.functions.get? callee = some (.user f) → "y" ∉ f.body.launched :=
    fun callee f hf => (get?_builtins_ne_user callee f hf).elim
  have hfiles : ∀ q, m.disk.Holds q → "y" ∉ q.launched := by
    rintro q ⟨text, path, source, hresolve, -⟩
    cases hresolve
  exact ⟨hp, hbodies, hfiles, rfl, rfl,
    (exports_follow_launches 0 p m).2.2.2.1 "y" hp hbodies hfiles⟩

end TagScript
