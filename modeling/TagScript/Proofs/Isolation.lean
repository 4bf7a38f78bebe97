import TagScript.Proofs.Comparison

/-!
# Modules are isolated

`runModule_isolated`: what a module gives, exports or an error, and what it does to the devices, is
settled by its path, the registry, the files, the devices and the set of paths marked as loading. An
importer can differ in all else, its globals, functions, exports, scopes and current module, and no
module can tell.

A module starts in a machine from which all that is gone, so two importers give it machines that
differ at most in the order in which paths were marked. `reordered` compares runs that differ in
nothing else.
-/

namespace TagScript

variable {α : Type}

/-! ### The order of marks -/

/-- Runs of the same code, whatever the order in which paths were marked as loading. -/
def reordered : Comparison :=
  { Comparison.exact with
    marks := SamePaths
    marked := id }

theorem reordered_imports (path : String) : reordered.Imports path reordered where
  tag _ _ := id
  exported _ _ := id
  mark h := h.insert path
  tables _ := id
  halt {h h' i j} hhalt hline := by
    cases hhalt
    exact congrArg (Halt.fromModule path · h) hline
  unparsed {source e i j} _ hline :=
    congrArg (fun line => Halt.error (.inModule path line e)) hline

theorem hereditary_reordered : Comparison.Hereditary (· = reordered) where
  tooDeep := by
    rintro _ rfl
    rfl
  module := by
    rintro _ rfl m path _ _ _
    exact ⟨reordered, rfl, reordered_imports path, trivial, fun source p _ _ => p.alike_refl⟩

/-! ### Importers -/

/-- What is seen of a run from outside of its machine: what it gives or why it stops early, and the
devices after it. -/
def observe (run : Run α) (m : Machine) : Except Halt α × Console × Draws :=
  match run m with
  | .ok a m' => (.ok a, m'.console, m'.draws)
  | .error halt m' => (.error halt, m'.console, m'.draws)

/-- Two machines that are the same to a module: all that it can see of its importer. -/
structure Machine.Alike (m m' : Machine) : Prop where
  registry : m'.registry = m.registry
  disk : m'.disk = m.disk
  console : m'.console = m.console
  draws : m'.draws = m.draws
  loading : SamePaths m.loading m'.loading

/-- A module starts with what is left of its importer, the marks. -/
theorem Machine.Alike.forModule {m m' : Machine} (h : m.Alike m') (path : String) :
    reordered.Machines (m.forModule path) (m'.forModule path) := by
  have heq : m'.forModule path = { m.forModule path with loading := m'.loading } := by
    unfold Machine.forModule
    rw [h.registry, h.disk, h.console, h.draws]
  have hfunctions : Function.builtins.Related (Function.Related Eq) Function.builtins :=
    .refl fun _ f _ => .refl (fun _ => rfl) f
  rw [heq]
  exact ⟨.mk (m := m.forModule path) .empty hfunctions .empty h.loading .nil, trivial, trivial⟩

theorem exports_eq_of_reordered {m m' : Machine} (h : reordered.Machines m m') :
    m'.exports = m.exports :=
  (h.related.exports.eq fun _ _ hxy => hxy.eq fun _ _ => id).symm

/-- A module runs alike for importers that are the same to it. -/
theorem runModule_isolated {m m' : Machine} (h : m.Alike m') (depth : Nat) (path : String)
    (line : Nat) :
    observe (runModule (Program.exec (invoke depth) (fetch depth)) path line) m' =
      observe (runModule (Program.exec (invoke depth) (fetch depth)) path line) m := by
  unfold observe runModule
  rw [h.disk]
  cases m.disk.readText path with
  | error reason => simp only [h.console, h.draws]
  | ok source =>
    dsimp only
    cases Program.parse source with
    | error e => simp only [h.console, h.draws]
    | ok program =>
      have hresults := hereditary_reordered.runProgram_runs rfl depth program.alike_refl _ _
        (h.forModule path)
      unfold runProgram at hresults
      dsimp only
      generalize program.exec (invoke depth) (fetch depth) (m.forModule path) = r,
        program.exec (invoke depth) (fetch depth) (m'.forModule path) = r' at hresults ⊢
      cases hresults with
      | ok _ hend =>
        simp only [Machine.resume, hend.related.console_eq, hend.related.draws_eq,
          exports_eq_of_reordered hend]
      | error hhalt hend =>
        cases hhalt
        simp only [Machine.resume, hend.related.console_eq, hend.related.draws_eq]

/-- A module that asks for a global which only one of two importers has, as a constant. -/
theorem runModule_isolated_constants :
    let disk : Disk := { resolve := fun _ => .ok "/c", read := fun _ => .ok "write(x)".toUTF8 }
    let bare : Machine := { loading := ["/a", "/b"], disk }
    let crowded : Machine :=
      { globals := Table.empty.insert "x" (.raw .null)
        functions := ∅
        loading := ["/b", "/a"]
        current := some "/a"
        scopes := [∅]
        disk }
    bare.Alike crowded ∧
      observe (runModule (Program.exec (invoke 2) (fetch 2)) "/c" 1) crowded =
        observe (runModule (Program.exec (invoke 2) (fetch 2)) "/c" 1) bare := by
  intro disk bare crowded
  have h : bare.Alike crowded := by
    refine ⟨rfl, rfl, rfl, rfl, fun path => ?_⟩
    show path ∈ ["/a", "/b"] ↔ path ∈ ["/b", "/a"]
    simp [or_comm]
  exact ⟨h, runModule_isolated h 2 "/c" 1⟩

end TagScript
