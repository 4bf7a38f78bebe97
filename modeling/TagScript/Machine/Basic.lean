import TagScript.Device.Console
import TagScript.Device.Disk
import TagScript.Machine.Draws
import TagScript.Machine.Function

/-!
# The machine

All that a run can read and change, and `Run`, the computations on it. A computation that stops
early leaves the machine as it was at that point, so what was printed or assigned before stays.
-/

namespace TagScript

/-- Names of modules and the paths they stand for. -/
abbrev Registry := Table String

structure Machine where
  globals : Table Binding := ∅
  functions : Table Function := Function.builtins
  /-- What the program has launched. -/
  exports : Table Export := ∅
  registry : Registry := ∅
  /-- The paths of the entry script and of the modules whose execution has begun and not ended. -/
  loading : List String := []
  /-- The path of the module that is running. -/
  current : Option String := none
  /-- The local scopes, the innermost first; there are none at the top level. -/
  scopes : List Scope := []
  console : Console := {}
  disk : Disk := .none
  draws : Draws := {}

/-- Why a computation stops early. -/
inductive Halt where
  | error (e : Error)
  /-- Calls and imports are nested more deeply than the run allows. -/
  | tooDeep

abbrev Run := EStateM Halt Machine

/-- Stops with a fault on a line. -/
def fail {α : Type} (line : Nat) (fault : Fault) : Run α :=
  throw (.error (.run line fault))

namespace Machine

/-- The binding that a name means: in the innermost scope that has one, else the global. -/
def lookup (m : Machine) (name : String) : Option Binding :=
  match Scope.lookup m.scopes name with
  | some binding => some binding
  | none => m.globals.get? name

/-- Binds a name in the innermost scope, or globally at the top level. -/
def declare (m : Machine) (name : String) (binding : Binding) : Machine :=
  match m.scopes with
  | [] => { m with globals := m.globals.insert name binding }
  | s :: outer => { m with scopes := s.insert name binding :: outer }

/-- Whether a name can be assigned. -/
def checkAssignable (m : Machine) (name : String) : Except Fault Unit :=
  match m.lookup name with
  | some (.slot _ _) => .ok ()
  | some (.raw _) => .error (.invalidVariable name)
  | none => .error (.undeclaredVariable name)

/-- Assigns to the binding that a name means: finds the scope that owns the name and assigns there,
or globally if there is none. -/
def assign (m : Machine) (name : String) (value : Value) : Except Fault Machine :=
  match Scope.ownerDepth? m.scopes name with
  | some depth =>
    match Scope.assignAt m.scopes depth name value with
    | .done scopes => .ok { m with scopes }
    | .refused => .error (.invalidVariable name)
    | .absent => .error (.undeclaredVariable name)
  | none =>
    match Scope.assign m.globals name value with
    | .done globals => .ok { m with globals }
    | .refused => .error (.invalidVariable name)
    | .absent => .error (.undeclaredVariable name)

/-- The scope that owns a name binds it, so assigning there never comes to nothing. -/
theorem assign_eq_innermost (m : Machine) (name : String) (value : Value) : m.assign name value =
    match Scope.assignInnermost m.scopes name value with
    | .done scopes => .ok { m with scopes }
    | .refused => .error (.invalidVariable name)
    | .absent =>
      match Scope.assign m.globals name value with
      | .done globals => .ok { m with globals }
      | .refused => .error (.invalidVariable name)
      | .absent => .error (.undeclaredVariable name) := by
  unfold assign
  have habsent : Scope.assignInnermost m.scopes name value = .absent ↔
      Scope.ownerDepth? m.scopes name = none := Scope.assignInnermost_eq_absent_iff
  cases hdepth : Scope.ownerDepth? m.scopes name with
  | none => rw [habsent.2 hdepth]
  | some depth =>
    dsimp only
    rw [Scope.assignAt_ownerDepth? hdepth]
    cases h : Scope.assignInnermost m.scopes name value with
    | done => rfl
    | refused => rfl
    | absent => simp_all

/-- Makes a name global and raw, for the host of a program. -/
def defineConstant (m : Machine) (name : String) (value : Value) : Machine :=
  { m with globals := m.globals.insert name (.raw value) }

/-- What a name exports: the function of that name, else the global variable. -/
def export? (m : Machine) (name : String) : Option Export :=
  match m.functions.get? name with
  | some f => some (.function f)
  | none => (m.globals.get? name).map .global

theorem export?_eq_some_iff {m : Machine} {name : String} {item : Export} :
    m.export? name = some item ↔
      (∃ f, m.functions.get? name = some f ∧ item = .function f) ∨
        m.functions.get? name = none ∧ ∃ b, m.globals.get? name = some b ∧ item = .global b := by
  unfold export?
  cases m.functions.get? name with
  | some f => simp [eq_comm]
  | none => cases m.globals.get? name <;> simp [eq_comm]

/-- Takes over one export. -/
def absorb (m : Machine) (name : String) : Export → Machine
  | .function f => { m with functions := m.functions.insert name f }
  | .global b => { m with globals := m.globals.insert name b }

/-- Takes over exports one after the other. -/
def absorbAll (m : Machine) (items : List (String × Export)) : Machine :=
  items.foldl (fun m (name, item) => m.absorb name item) m

/-- Takes over what a module exports. -/
def merge (m : Machine) (exports : Table Export) : Machine :=
  m.absorbAll exports.entries

end Machine

end TagScript
