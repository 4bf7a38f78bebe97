import TagScript.Program.Mentions
import TagScript.Proofs.StoredFunctions
import TagScript.Proofs.Termination

/-!
# Code within limits

Some facts hold of runs in which no code of a kind takes part: none that calls a function of some
name, that fetches, or that launches some name. The code of a run is not only the program. It is
also the bodies of the functions in the table and, where something is fetched, the programs in the
files. `Machine.Obeys l` says that all of these stay within the limits `l`.

`closedFrom_obeys` says that such a run keeps to its limits: what it defines, imports and launches
obeys them too, so they hold of every activation on the way.
-/

namespace TagScript

open Activation

/-! ### What code launches -/

mutual

/-- The names that a statement launches, bodies of declared functions included. -/
def Stmt.launched : Stmt → List String
  | .define _ _ _ body _ => body.launched
  | .when _ body alternate _ =>
    body.launched ++ match alternate with
      | some block => block.launched
      | none => []
  | .otherwise body _ => body.launched
  | .launch names _ => names
  | .declare _ _ _ _ | .set _ _ _ | .giveBack _ _ | .expression _ _ | .fetch _ _ => []

def Block.launched : Block → List String
  | .mk statements _ => Stmt.allLaunched statements

def Stmt.allLaunched : List Stmt → List String
  | [] => []
  | s :: rest => s.launched ++ Stmt.allLaunched rest

end

def Program.launched (p : Program) : List String :=
  Stmt.allLaunched p.body

/-! ### Limits -/

/-- What code may call, fetch and launch. -/
structure Limits where
  call : String → Prop := fun _ => True
  fetch : String → Prop := fun _ => True
  launch : String → Prop := fun _ => True

/-- All that is listed is within the limits. -/
structure Limits.Allow (l : Limits) (called fetched launched : List String) : Prop where
  called : ∀ name ∈ called, l.call name
  fetched : ∀ text ∈ fetched, l.fetch text
  launched : ∀ name ∈ launched, l.launch name

section

variable (l : Limits)

def Block.Obeys (b : Block) : Prop :=
  l.Allow b.called b.fetched b.launched

def Program.Obeys (p : Program) : Prop :=
  l.Allow p.called p.fetched p.launched

/-- A function that may be called by a name. A built-in one may have another name of its own. -/
def Function.Obeys (name : String) : Function → Prop
  | builtin b => l.call name → l.call b.name
  | user f => f.body.Obeys l

def Task.Obeys (d : Disk) : Task → Prop
  | expr _ e => l.Allow e.called [] []
  | exprs _ es => l.Allow (Expr.allCalled es) [] []
  | stmt _ s => l.Allow s.called s.fetched s.launched
  | stmts _ ss => l.Allow (Stmt.allCalled ss) (Stmt.allFetched ss) (Stmt.allLaunched ss)
  | block _ b => b.Obeys l
  | program _ p => p.Obeys l
  | call _ f _ => f.body.Obeys l
  | fetch _ requested _ => l.fetch requested
  | load _ path _ => (∃ text, l.fetch text) ∧ ∃ text, d.resolve text = .ok path

/-- The functions of the machine obey the limits, and so do its files if any may be fetched. -/
structure Machine.Obeys (m : Machine) : Prop where
  functions : ∀ name f, m.functions.get? name = some f → f.Obeys l name
  files : ∀ text p, l.fetch text → m.disk.Holds p → p.Obeys l

structure Activation.Obeys (a : Activation) : Prop where
  task : a.task.Obeys l a.start.disk
  machine : a.start.Obeys l

end

section

variable {l : Limits} {called fetched launched called' fetched' launched' : List String}

theorem Limits.Allow.mono (h : l.Allow called fetched launched) (hcalled : called' ⊆ called)
    (hfetched : fetched' ⊆ fetched) (hlaunched : launched' ⊆ launched) :
    l.Allow called' fetched' launched' :=
  ⟨fun name hname => h.called name (hcalled hname),
    fun text htext => h.fetched text (hfetched htext),
    fun name hname => h.launched name (hlaunched hname)⟩

/-- Code that is called is a part of the caller's, the body of a function, or a file. -/
theorem Task.Obeys.call {a b : Activation} (h : a.Obeys l) (hcall : a.Calls b) :
    b.task.Obeys l b.start.disk := by
  obtain ⟨hcode, hmachine⟩ := h
  cases hcall with
  | operand => exact hcode
  | left | right => exact hcode.mono (by simp [Expr.called]) (by simp) (by simp)
  | builtinArgs | callArgs => exact hcode.mono (by simp [Expr.called]) (by simp) (by simp)
  | call hf => exact hmachine.functions _ _ hf
  | firstArg | nextArgs => exact hcode.mono (by simp [Expr.allCalled]) (by simp) (by simp)
  | declare | set | giveBack | expression =>
    exact hcode.mono (by simp [Stmt.called]) (by simp) (by simp)
  | @test _ _ _ alternate =>
    cases alternate <;> exact hcode.mono (by simp [Stmt.called]) (by simp) (by simp)
  | @body _ _ _ alternate =>
    cases alternate <;>
      exact hcode.mono (by simp [Stmt.called]) (by simp [Stmt.fetched]) (by simp [Stmt.launched])
  | alternate =>
    exact hcode.mono (by simp [Stmt.called]) (by simp [Stmt.fetched]) (by simp [Stmt.launched])
  | otherwise => exact hcode
  | fetch => exact hcode.fetched _ (by simp [Stmt.fetched])
  | first | next =>
    exact hcode.mono (by simp [Stmt.allCalled]) (by simp [Stmt.allFetched])
      (by simp [Stmt.allLaunched])
  | inside => exact hcode
  | program => exact hcode
  | frame => exact hcode
  | load htarget _ => exact ⟨⟨_, hcode⟩, Machine.resolve_of_target htarget⟩
  | module hread hparse =>
    obtain ⟨⟨text, hfetch⟩, name, hresolve⟩ := hcode
    exact hmachine.files text _ hfetch ⟨name, _, _, hresolve, hread, hparse⟩

/-- A machine obeys limits if its declared functions and its files do, and no built-in function has
another name to get around them. -/
theorem Machine.obeys_of_bodies {m : Machine}
    (hbuiltins : ∀ name b, m.functions.get? name = some (.builtin b) → l.call name → l.call b.name)
    (hbodies : ∀ name f, m.functions.get? name = some (.user f) → f.body.Obeys l)
    (hfiles : ∀ text p, l.fetch text → m.disk.Holds p → p.Obeys l) : m.Obeys l where
  functions name f hf := by
    cases f with
    | builtin b => exact hbuiltins name b hf
    | user f => exact hbodies name f hf
  files := hfiles

/-! ### Runs -/

/-- A run that starts with functions and files within the limits ends so, and so are the functions
that it launches. -/
structure Machine.KeepsLimits (l : Limits) (m m' : Machine) : Prop where
  disk : m'.disk = m.disk
  machine : m.Obeys l → m'.Obeys l
  exports : m.Obeys l → ∀ name f, m'.exports.get? name = some (.function f) →
    m.exports.get? name = some (.function f) ∨ f.Obeys l name

theorem Machine.obeys_iff_stores {m : Machine} : m.Obeys l ↔
    m.Stores (fun name f => f.Obeys l name)
      (fun disk => ∀ text p, l.fetch text → disk.Holds p → p.Obeys l) :=
  ⟨fun h => ⟨h.functions, h.files⟩, fun h => ⟨h.functions, h.disk⟩⟩

/-- What stays within the limits is an invariant of code in the sense of `CodeInvariant`. -/
theorem codeInvariant_obeys (l : Limits) :
    CodeInvariant (fun name f => f.Obeys l name)
      (fun disk => ∀ text p, l.fetch text → disk.Holds p → p.Obeys l)
      (fun a => a.task.Obeys l a.start.disk) where
  builtin _ := id
  calls ha hstores hcall := .call ⟨ha, hstores.functions, hstores.disk⟩ hcall
  define ha := ha

/-- Limits hand down to all that is called, and a run keeps to them. -/
theorem closedFrom_obeys (l : Limits) :
    ClosedFrom (Activation.Obeys l) (Machine.KeepsLimits l) := by
  refine (codeInvariant_obeys l).closedFrom.congr (fun a => ?_) (fun m m' => ?_)
  · rw [← Machine.obeys_iff_stores]
    exact ⟨fun h => ⟨h.task, h.machine⟩, fun h => ⟨h.1, h.2⟩⟩
  · constructor
    · intro h
      refine ⟨h.disk, fun hm => ?_, fun hm => h.exports (Machine.obeys_iff_stores.2 hm)⟩
      exact Machine.obeys_iff_stores.1 (h.machine (Machine.obeys_iff_stores.2 hm))
    · intro h
      refine ⟨h.disk, fun hm => ?_, fun hm => h.exports (Machine.obeys_iff_stores.1 hm)⟩
      exact Machine.obeys_iff_stores.2 (h.machine (Machine.obeys_iff_stores.1 hm))

end

end TagScript
