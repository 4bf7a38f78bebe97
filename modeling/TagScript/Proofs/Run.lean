import TagScript.Proofs.Course

/-!
# What a run does to the machine

`Machine.Change` lists the single changes that a script can make, and `Closed R` says that a
relation between machines holds across each of them, across several in a row, and across the
brackets of the evaluator: a block, the frame of a call, and the steps of an import. `Closed.run`
concludes that `R` holds across every activation.

What code a run has to do with may matter. `ClosedFrom ok R` is the same for activations that are
`ok` only, which hands down to all that they call: `ClosedFrom.run` and `ClosedFrom.call`. Both come
from the courses of activations, and nothing here looks at the evaluator again.
-/

namespace TagScript

open Activation Relation

/-! ### Single changes -/

/-- One change that a script can make to the machine it runs in. -/
inductive Machine.Change : Machine → Machine → Prop
  | console {m : Machine} (console : Console) : Change m { m with console }
  | draws {m : Machine} (draws : Draws) : Change m { m with draws }
  | declare {m : Machine} (name : String) (value : Value) (tag : Option Tag) :
    Change m (m.declare name (.slot value tag))
  | assign {m m' : Machine} {name : String} {value : Value} :
    m.assign name value = .ok m' → Change m m'
  | prompt {m : Machine} (name : String) (value : Value) (tag : Option Tag) :
    Change m { m with globals := m.globals.insert name (.slot value tag) }
  | delete {m : Machine} (name : String) : Change m { m with globals := m.globals.erase name }
  | define {m : Machine} (f : FunctionDecl) :
    Change m { m with functions := m.functions.insert f.name (.user f) }
  | launch {m : Machine} {name : String} {item : Export} : m.export? name = some item →
    Change m { m with exports := m.exports.insert name item }

namespace Machine

theorem declare_eq (m : Machine) (name : String) (binding : Binding) :
    ∃ globals scopes, m.declare name binding = { m with globals, scopes } := by
  unfold declare
  split
  · exact ⟨_, _, rfl⟩
  · exact ⟨_, _, rfl⟩

theorem assign_eq {m m' : Machine} {name : String} {value : Value}
    (h : m.assign name value = .ok m') : ∃ globals scopes, m' = { m with globals, scopes } := by
  rw [assign_eq_innermost] at h
  split at h
  · cases h
    exact ⟨_, _, rfl⟩
  · cases h
  · split at h <;> cases h
    exact ⟨_, _, rfl⟩

end Machine

theorem Activation.Acts.change {a : Activation} {m m' : Machine} (h : a.Acts m m') :
    m.Change m' := by
  cases h with
  | builtin _ h =>
    cases h with
    | console console => exact .console console
    | draws draws => exact .draws draws
    | prompt name value tag => exact .prompt name value tag
    | delete name => exact .delete name
  | declare value => exact .declare _ value _
  | assign h => exact .assign h
  | @define d name result params body line => exact .define ⟨name, result, params, body, line⟩
  | launch _ h => exact .launch h

/-! ### Imports -/

namespace Machine

/-- The machine that the module at a path starts in, seen from its importer. -/
def enterModule (m : Machine) (path : String) : Machine :=
  (m.mark path).forModule path

/-- The machine in which the importer goes on after a module that ended in `m'`. -/
def leaveModule (m m' : Machine) (path : String) : Machine :=
  (m.resume m').unmark path

variable {m m' : Machine} {path : String}

theorem not_mem_loading (h : m.isRunning path = false) : path ∉ m.loading := by
  intro hmem
  rw [isRunning_iff.2 (.inr hmem)] at h
  cases h

/-- What marks a path as loading can take the mark away again. -/
theorem erase_insert_loading (h : m.isRunning path = false) :
    (m.loading.insert path).erase path = m.loading := by
  rw [List.insert_of_not_mem (not_mem_loading h), List.erase_cons_head]

theorem unmark_mark (h : m.isRunning path = false) : (m.mark path).unmark path = m := by
  unfold mark unmark
  rw [erase_insert_loading h]

end Machine

/-- All that an import can come to, with the machine that each leaves. -/
inductive Imports (run : Program → Run Unit) (requested : String) (line : Nat) (m : Machine) :
    EStateM.Result Halt Machine Unit → Prop
  | unresolved {fault : Fault} : m.target requested = .error fault →
    Imports run requested line m (.error (.error (.run line fault)) m)
  | skipped {path : String} : m.target requested = .ok path → m.isRunning path = true →
    Imports run requested line m (.ok () m)
  | unread {path : String} {reason : DeviceError} : m.target requested = .ok path →
    m.isRunning path = false → m.disk.readText path = .error reason →
      Imports run requested line m (.error (.error (.run line (.moduleRead path reason))) m)
  | unparsed {path source : String} {e : Error} : m.target requested = .ok path →
    m.isRunning path = false → m.disk.readText path = .ok source →
      Program.parse source = .error e →
        Imports run requested line m (.error (.error (.inModule path line e)) m)
  | failed {path source : String} {program : Program} {halt : Halt} {m' : Machine} :
    m.target requested = .ok path → m.isRunning path = false →
      m.disk.readText path = .ok source → Program.parse source = .ok program →
        run program (m.enterModule path) = .error halt m' →
          Imports run requested line m (.error (halt.fromModule path line) (m.leaveModule m' path))
  | merged {path source : String} {program : Program} {m' : Machine} :
    m.target requested = .ok path → m.isRunning path = false →
      m.disk.readText path = .ok source → Program.parse source = .ok program →
        run program (m.enterModule path) = .ok () m' →
          Imports run requested line m (.ok () ((m.leaveModule m' path).merge m'.exports))

/-- An import up to where the module itself is run. -/
theorem importModule_apply (run : Program → Run Unit) (requested : String) (line : Nat)
    (m : Machine) : importModule run requested line m =
      match m.target requested with
      | .error fault => .error (.error (.run line fault)) m
      | .ok path =>
        if m.isRunning path then .ok () m
        else (whileLoading path (runModule run path line) >>= fun exports =>
          modify (·.merge exports)) m := by
  show (match m.target requested with
    | .error fault => fail line fault
    | .ok path =>
      if m.isRunning path then pure ()
      else whileLoading path (runModule run path line) >>= fun exports => modify (·.merge exports) :
    Run Unit) m = _
  cases m.target requested with
  | error fault => rfl
  | ok path =>
    dsimp only
    cases m.isRunning path <;> rfl

theorem importModule_imports (run : Program → Run Unit) (requested : String) (line : Nat)
    (m : Machine) : Imports run requested line m (importModule run requested line m) := by
  rw [importModule_apply]
  cases htarget : m.target requested with
  | error fault => exact .unresolved htarget
  | ok path =>
    dsimp only
    cases hrunning : m.isRunning path with
    | true => exact .skipped htarget hrunning
    | false =>
      simp only [Bool.false_eq_true, if_false, bind, EStateM.bind, whileLoading, runModule,
        Machine.mark_disk]
      cases hread : m.disk.readText path with
      | error reason =>
        dsimp only
        rw [Machine.unmark_mark hrunning]
        exact .unread htarget hrunning hread
      | ok source =>
        dsimp only
        cases hparse : Program.parse source with
        | error e =>
          dsimp only
          rw [Machine.unmark_mark hrunning]
          exact .unparsed htarget hrunning hread hparse
        | ok program =>
          dsimp only
          cases hrun : run program (m.enterModule path) with
          | error halt m' =>
            have himports : Imports run requested line m _ :=
              .failed htarget hrunning hread hparse hrun
            unfold Machine.enterModule at hrun
            rw [hrun]
            exact himports
          | ok u m' =>
            have himports : Imports run requested line m _ :=
              .merged htarget hrunning hread hparse hrun
            unfold Machine.enterModule at hrun
            rw [hrun]
            exact himports

theorem fetch_imports (d : Nat) (requested : String) (line : Nat) (m : Machine) :
    Imports (Program.exec (invoke d) (fetch d)) requested line m
      (fetch (d + 1) requested line m) := by
  rw [fetch]
  exact importModule_imports _ requested line m

/-! ### Relations across activations -/

/-- `R` holds across all that the evaluator does in activations that are `ok`, and what these call
is `ok` again. -/
structure ClosedFrom (ok : Activation → Prop) (R : Machine → Machine → Prop) : Prop where
  refl : ∀ m, R m m
  trans : ∀ {a b c}, R a b → R b c → R a c
  /-- A call starts in what the calls before it have left, unless something is put aside for it. -/
  calls : ∀ {a b}, ok a → a.Calls b → (a.task.Plain → R a.start b.start) → ok b
  acts : ∀ {a m m'}, ok a → R a.start m → a.Acts m m' → R m m'
  block : ∀ {d b m m'}, ok ⟨.block d b, m⟩ → R { m with scopes := ∅ :: m.scopes } m' →
    R m { m' with scopes := m'.scopes.tail }
  frame : ∀ {d f args m m'}, ok ⟨.call d f args, m⟩ →
    R { m with scopes := [frame f.params args] } m' → R m { m' with scopes := m.scopes }
  module : ∀ {d path line m m'}, ok ⟨.load d path line, m⟩ → R (m.forModule path) m' →
    R m (m.resume m')
  mark : ∀ {d requested line path m m'}, ok ⟨.fetch d requested line, m⟩ →
    m.isRunning path = false → R (m.mark path) m' →
      R m (m'.unmark path)
  merge : ∀ {d requested line path m m'}, ok ⟨.fetch d requested line, m⟩ →
    m.isRunning path = false → R (m.enterModule path) m' →
      R m ((m.leaveModule m' path).merge m'.exports)

namespace ClosedFrom

variable {ok : Activation → Prop} {R : Machine → Machine → Prop} (hR : ClosedFrom ok R)

include hR

/-- `R` holds up to each of several activations in a row if it holds across those before it. -/
theorem linked {m m' : Machine} {bs : List Activation} (h : Linked m bs m')
    (hbs : ∀ b ∈ bs, R m b.start → R b.start b.finish) :
    R m m' ∧ ∀ b ∈ bs, R m b.start := by
  suffices ∀ m₀, R m₀ m → (∀ b ∈ bs, R m₀ b.start → R b.start b.finish) →
      R m₀ m' ∧ ∀ b ∈ bs, R m₀ b.start from this m (hR.refl m) hbs
  clear hbs
  induction h with
  | nil => exact fun m₀ h₀ _ => ⟨h₀, nofun⟩
  | @cons b bs m' _ ih =>
    intro m₀ h₀ hbs
    have hb := hbs b (List.mem_cons_self ..) h₀
    obtain ⟨hm', hrest⟩ := ih m₀ (hR.trans h₀ hb) fun c hc => hbs c (List.mem_cons_of_mem _ hc)
    refine ⟨hm', fun c hc => ?_⟩
    rcases List.mem_cons.1 hc with rfl | hc
    · exact h₀
    · exact hrest c hc

variable {a : Activation}

theorem acts_all (hok : ok a) {m m' : Machine} (hm : R a.start m) (h : ReflTransGen a.Acts m m') :
    R m m' := by
  induction h with
  | refl => exact hR.refl m
  | tail _ hact ih => exact hR.trans ih (hR.acts hok (hR.trans hm ih) hact)

/-- `R` holds across an activation, and up to each of its calls, if it holds across the calls. -/
theorem plain (hok : ok a) (hplain : a.task.Plain)
    (h : ∀ b, a.Calls b → ok b → R b.start b.finish) :
    R a.start a.finish ∧ ∀ b, a.Calls b → R a.start b.start := by
  obtain ⟨m, hlinked, hacts⟩ := a.course hplain
  obtain ⟨hm, hstarts⟩ := hR.linked hlinked fun b hb hstart =>
    h b (calls_of_mem hb) (hR.calls hok (calls_of_mem hb) fun _ => hstart)
  exact ⟨hR.trans hm (hR.acts_all hok hm hacts), fun b hb => hstarts b (mem_calls_iff.2 hb)⟩

theorem bracket_fetch {d : Nat} {requested : String} {line : Nat} {m : Machine}
    (hok : ok ⟨.fetch d requested line, m⟩)
    (h : ∀ b, TransGen Calls ⟨.fetch d requested line, m⟩ b → ok b → R b.start b.finish) :
    R m (after (fetch d requested line) m) := by
  cases d with
  | zero =>
    rw [fetch]
    exact hR.refl m
  | succ d =>
    have hprogram : ∀ path source p, m.target requested = .ok path → m.isRunning path = false →
        m.disk.readText path = .ok source → Program.parse source = .ok p →
          R (m.enterModule path) (after (p.exec (invoke d) (fetch d)) (m.enterModule path)) := by
      intro path source p htarget hrunning hread hparse
      have hload : Calls ⟨.fetch (d + 1) requested line, m⟩
          ⟨.load d path line, m.mark path⟩ :=
        .load htarget hrunning
      have hmodule : Calls ⟨.load d path line, m.mark path⟩
          ⟨.program d p, m.enterModule path⟩ := .module hread hparse
      refine h _ (.tail (.single hload) hmodule) ?_
      exact hR.calls (hR.calls hok hload nofun) hmodule nofun
    have himports := fetch_imports d requested line m
    unfold after
    generalize fetch (d + 1) requested line m = result at himports ⊢
    -- what is merged is known only from the module's run, which is two calls below
    cases himports with
    | unresolved | skipped | unread | unparsed => exact hR.refl m
    | @failed path source p halt m' htarget hrunning hread hparse hrun =>
      have hm' := hprogram path source p htarget hrunning hread hparse
      rw [after_of_error hrun] at hm'
      have hload := hR.calls hok (.load htarget hrunning) nofun
      exact hR.mark hok hrunning (hR.module hload hm')
    | @merged path source p m' htarget hrunning hread hparse hrun =>
      have hm' := hprogram path source p htarget hrunning hread hparse
      rw [after_of_ok hrun] at hm'
      exact hR.merge hok hrunning hm'

theorem bracket_load {d : Nat} {path : String} {line : Nat} {m : Machine}
    (hok : ok ⟨.load d path line, m⟩)
    (h : ∀ b, Calls ⟨.load d path line, m⟩ b → ok b → R b.start b.finish) :
    R m (after (runModule (Program.exec (invoke d) (fetch d)) path line) m) := by
  unfold after runModule
  cases hread : m.disk.readText path with
  | error reason => exact hR.refl m
  | ok source =>
    dsimp only
    cases hparse : Program.parse source with
    | error e => exact hR.refl m
    | ok p =>
      dsimp only
      have hmodule : Calls ⟨.load d path line, m⟩ ⟨.program d p, m.forModule path⟩ :=
        .module hread hparse
      have hp : R (m.forModule path) (after (p.exec _ _) (m.forModule path)) :=
        h _ hmodule (hR.calls hok hmodule nofun)
      cases hrun : p.exec (invoke d) (fetch d) (m.forModule path) with
      | ok u m' =>
        rw [after_of_ok hrun] at hp
        exact hR.module hok hp
      | error halt m' =>
        rw [after_of_error hrun] at hp
        exact hR.module hok hp

theorem step (hok : ok a) (h : ∀ b, TransGen Calls a b → ok b → R b.start b.finish) :
    R a.start a.finish := by
  have hcalls := fun b (hb : a.Calls b) => h b (.single hb)
  obtain ⟨task, m⟩ := a
  cases task with
  | expr | exprs | stmt | stmts | program => exact (hR.plain hok trivial hcalls).1
  | block d b =>
    cases b with
    | mk ss line =>
      show R m (after (Block.exec _ _ (.mk ss line)) m)
      rw [Block.exec, after_inBlock]
      exact hR.block hok (hcalls _ .inside (hR.calls hok .inside nofun))
  | call d f args =>
    cases d with
    | zero =>
      show R m (after (invoke 0 f args) m)
      rw [invoke]
      exact hR.refl m
    | succ d =>
      show R m (after (invoke (d + 1) f args) m)
      rw [invoke, after_inFrame]
      exact hR.frame hok (hcalls _ .frame (hR.calls hok .frame nofun))
  | fetch d requested line => exact hR.bracket_fetch hok h
  | load d path line => exact hR.bracket_load hok hcalls

theorem run (a : Activation) (hok : ok a) : R a.start a.finish :=
  hR.step hok fun b _ hb => run b hb
termination_by a.task.rank
decreasing_by exact rank_lt_of_transGen ‹_›

/-- What is called is `ok` again. -/
theorem call {b : Activation} (hok : ok a) (h : a.Calls b) : ok b :=
  hR.calls hok h fun hplain => (hR.plain hok hplain fun b _ => hR.run b).2 b h

theorem congr {ok' : Activation → Prop} {R' : Machine → Machine → Prop}
    (hok : ∀ a, ok' a ↔ ok a) (hR' : ∀ m m', R' m m' ↔ R m m') : ClosedFrom ok' R' := by
  obtain rfl : ok' = ok := funext fun a => propext (hok a)
  obtain rfl : R' = R := funext₂ fun m m' => propext (hR' m m')
  exact hR

end ClosedFrom

/-- `R` holds across all that the evaluator does. -/
structure Closed (R : Machine → Machine → Prop) : Prop where
  refl : ∀ m, R m m
  trans : ∀ {a b c}, R a b → R b c → R a c
  change : ∀ {m m'}, m.Change m' → R m m'
  block : ∀ {m m'}, R { m with scopes := ∅ :: m.scopes } m' →
    R m { m' with scopes := m'.scopes.tail }
  frame : ∀ {m m'} (s : Scope), R { m with scopes := [s] } m' → R m { m' with scopes := m.scopes }
  module : ∀ {m m' path}, R (m.forModule path) m' → R m (m.resume m')
  mark : ∀ {m m' path}, m.isRunning path = false →
    R (m.mark path) m' →
      R m (m'.unmark path)
  merge : ∀ {m m' path}, m.isRunning path = false → R (m.enterModule path) m' →
    R m ((m.leaveModule m' path).merge m'.exports)

/-- Any property will do that hands down to what is called. -/
theorem Closed.closedFrom {ok : Activation → Prop} {R : Machine → Machine → Prop} (hR : Closed R)
    (hcalls : ∀ {a b}, ok a → a.Calls b → (a.task.Plain → R a.start b.start) → ok b) :
    ClosedFrom ok R where
  refl := hR.refl
  trans := hR.trans
  calls := hcalls
  acts _ _ h := hR.change h.change
  block _ := hR.block
  frame _ := hR.frame _
  module _ := hR.module
  mark _ := hR.mark
  merge _ := hR.merge

theorem Closed.run {R : Machine → Machine → Prop} (hR : Closed R) (a : Activation) :
    R a.start a.finish := by
  have hclosed : ClosedFrom (fun _ => True) R := hR.closedFrom fun _ _ _ => trivial
  exact hclosed.run a trivial

end TagScript
