import TagScript.Proofs.Run

/-!
# Imports are atomic

`fetch_atomic`: an import that fails leaves the importer as it was, an import of a module that is
running already changes nothing, and an import that runs a module adds exactly what the module
exports, whatever order the exports are taken over in. Only the console and the source of random
numbers go on from where the module left them.

The importer's tables are put aside while the module runs and come back by definition. The registry,
the disk, the paths marked as loading and the current module do not: the module runs on them, so
that they come back is a fact about every run, `closed_fixed`.
-/

namespace TagScript

/-! ### What no run changes -/

/-- The parts of a machine that are the same before and after every run. -/
structure Machine.Fixed (m m' : Machine) : Prop where
  registry : m'.registry = m.registry
  disk : m'.disk = m.disk
  loading : m'.loading = m.loading
  current : m'.current = m.current

theorem Machine.Change.fixed {m m' : Machine} (h : m.Change m') : m.Fixed m' := by
  cases h with
  | declare name value tag =>
    unfold Machine.declare
    split <;> exact ⟨rfl, rfl, rfl, rfl⟩
  | @assign _ name value h =>
    rw [Machine.assign_eq_innermost] at h
    split at h
    · cases h
      exact ⟨rfl, rfl, rfl, rfl⟩
    · cases h
    · split at h <;> cases h
      exact ⟨rfl, rfl, rfl, rfl⟩
  | _ => exact ⟨rfl, rfl, rfl, rfl⟩

namespace Machine

variable {m m' : Machine} {path : String}

theorem absorbAll_cons (m : Machine) (name : String) (item : Export)
    (rest : List (String × Export)) :
    m.absorbAll ((name, item) :: rest) = (m.absorb name item).absorbAll rest :=
  rfl

/-- Exports go into the two tables and nowhere else. -/
theorem absorbAll_eq (m : Machine) (items : List (String × Export)) : m.absorbAll items =
    { m with
      functions := (m.absorbAll items).functions
      globals := (m.absorbAll items).globals } := by
  induction items generalizing m with
  | nil => rfl
  | cons entry rest ih =>
    obtain ⟨name, item⟩ := entry
    rw [absorbAll_cons]
    refine (ih _).trans ?_
    cases item <;> rfl

/-- A machine with the devices as another one has them. -/
def withDevices (m m' : Machine) : Machine :=
  { m with console := m'.console, draws := m'.draws }

/-- The importer is itself again when the module has not touched what no run changes. -/
theorem leaveModule_eq (hrunning : m.isRunning path = false)
    (h : (m.enterModule path).Fixed m') : m.leaveModule m' path = m.withDevices m' := by
  obtain ⟨hregistry, hdisk, hloading, -⟩ := h
  have herase : m'.loading.erase path = m.loading := by
    rw [hloading]
    exact erase_insert_loading hrunning
  unfold leaveModule withDevices resume unmark
  rw [hregistry, hdisk, herase]
  rfl

end Machine

theorem closed_fixed : Closed Machine.Fixed where
  refl _ := ⟨rfl, rfl, rfl, rfl⟩
  trans h h' :=
    ⟨h'.registry.trans h.registry, h'.disk.trans h.disk, h'.loading.trans h.loading,
      h'.current.trans h.current⟩
  change h := h.fixed
  block h := ⟨h.registry, h.disk, h.loading, h.current⟩
  frame _ h := ⟨h.registry, h.disk, h.loading, h.current⟩
  module h := ⟨h.registry, h.disk, h.loading, rfl⟩
  mark {m m' path} hrunning h := by
    refine ⟨h.registry, h.disk, ?_, h.current⟩
    show m'.loading.erase path = m.loading
    rw [h.loading]
    exact Machine.erase_insert_loading hrunning
  merge hrunning h := by
    rw [Machine.leaveModule_eq hrunning h, Machine.merge, Machine.absorbAll_eq]
    exact ⟨rfl, rfl, rfl, rfl⟩

/-! ### What a module exports -/

namespace Export

/-- The function that is exported, if it is one. -/
def function? : Export → Option Function
  | function f => some f
  | global _ => none

/-- The variable that is exported, if it is one. -/
def global? : Export → Option Binding
  | function _ => none
  | global b => some b

end Export

theorem Table.insert_comm {α : Type} (t : Table α) {a b : String} (h : a ≠ b) (x y : α) :
    (t.insert a x).insert b y = (t.insert b y).insert a x := by
  refine Table.ext_get? fun name => ?_
  simp only [Table.get?_insert]
  by_cases ha : a = name
  · subst ha
    rw [if_neg h.symm, if_pos rfl, if_pos rfl]
  · rw [if_neg ha, if_neg ha]

namespace Machine

variable {m m' : Machine}

theorem absorb_comm (m : Machine) {a b : String} (h : a ≠ b) (x y : Export) :
    (m.absorb a x).absorb b y = (m.absorb b y).absorb a x := by
  cases x with
  | function f =>
    cases y with
    | function g => simp only [absorb, Table.insert_comm _ h]
    | global c => rfl
  | global c =>
    cases y with
    | function g => rfl
    | global d => simp only [absorb, Table.insert_comm _ h]

/-- The entries of a table can be taken over in any order, since no name is there twice. -/
theorem absorbAll_perm (m : Machine) (exports : Table Export) {items : List (String × Export)}
    (h : items.Perm exports.entries) : m.absorbAll items = m.absorbAll exports.entries := by
  have hne {a b : String × Export} (hlt : a.1 < b.1) : a.1 ≠ b.1 := by
    intro heq
    rw [heq] at hlt
    exact String.lt_irrefl _ hlt
  refine (h.symm.foldl_eq' (fun a ha b hb => ?_) m).symm
  refine List.Pairwise.forall_of_forall_of_flip (R := fun a b : String × Export => ∀ m : Machine,
    (m.absorb a.1 a.2).absorb b.1 b.2 = (m.absorb b.1 b.2).absorb a.1 a.2) ?_ ?_ ?_ ha hb
  · exact fun _ _ _ => rfl
  · exact exports.inOrder.imp fun hlt m => absorb_comm m (hne hlt) _ _
  · exact exports.inOrder.imp fun hlt m => absorb_comm m (hne hlt).symm _ _

theorem get?_functions_absorb (m : Machine) (name other : String) (item : Export) :
    (m.absorb name item).functions.get? other =
      if name = other then item.function?.or (m.functions.get? other)
      else m.functions.get? other := by
  cases item with
  | function f =>
    rw [absorb, Table.get?_insert]
    rfl
  | global b => exact (ite_self _).symm

theorem get?_globals_absorb (m : Machine) (name other : String) (item : Export) :
    (m.absorb name item).globals.get? other =
      if name = other then item.global?.or (m.globals.get? other) else m.globals.get? other := by
  cases item with
  | function f => exact (ite_self _).symm
  | global b =>
    rw [absorb, Table.get?_insert]
    rfl

/-- Reading one of the two tables after taking over entries, given how it reads after one. -/
theorem get?_absorbAll {α : Type} {table : Machine → Table α} {pick : Export → Option α}
    (habsorb : ∀ m name other item, (table (m.absorb name item)).get? other =
      if name = other then (pick item).or ((table m).get? other) else (table m).get? other)
    (m : Machine) (name : String) {items : List (String × Export)} (h : InOrder items) :
    (table (m.absorbAll items)).get? name =
      ((Table.find? name items).bind pick).or ((table m).get? name) := by
  induction items generalizing m with
  | nil => rfl
  | cons entry rest ih =>
    obtain ⟨key, item⟩ := entry
    obtain ⟨hfirst, hrest⟩ := List.pairwise_cons.1 h
    rw [absorbAll_cons, ih _ hrest, habsorb, Table.find?]
    by_cases hkey : key = name
    · subst hkey
      rw [Table.find?_eq_none hfirst, if_pos rfl, if_pos rfl]
      rfl
    · rw [if_neg hkey, if_neg hkey]

theorem get?_functions_merge (m : Machine) (exports : Table Export) (name : String) :
    (m.merge exports).functions.get? name =
      ((exports.get? name).bind Export.function?).or (m.functions.get? name) :=
  get?_absorbAll get?_functions_absorb m name exports.inOrder

theorem get?_globals_merge (m : Machine) (exports : Table Export) (name : String) :
    (m.merge exports).globals.get? name =
      ((exports.get? name).bind Export.global?).or (m.globals.get? name) :=
  get?_absorbAll get?_globals_absorb m name exports.inOrder

end Machine

/-! ### Imports -/

/-- The text names a module that is running already. -/
def Machine.Skips (m : Machine) (requested : String) : Prop :=
  ∃ path, m.target requested = .ok path ∧ m.isRunning path = true

/-- The text names a module that is not running, and this one runs to its end, in `module`. -/
inductive Executes (m : Machine) (requested : String) : Nat → Machine → Prop
  | intro {depth : Nat} {path source : String} {program : Program} {module : Machine} :
    m.target requested = .ok path → m.isRunning path = false →
      m.disk.readText path = .ok source → Program.parse source = .ok program →
        program.exec (invoke depth) (fetch depth) (m.enterModule path) = .ok () module →
          Executes m requested (depth + 1) module

/-- `m'` is the importer `m` with the exports of a module that ended in `module`. -/
structure Machine.Takes (m module m' : Machine) : Prop where
  functions : ∀ name, m'.functions.get? name =
    ((module.exports.get? name).bind Export.function?).or (m.functions.get? name)
  globals : ∀ name, m'.globals.get? name =
    ((module.exports.get? name).bind Export.global?).or (m.globals.get? name)
  rest : m' = { m.withDevices module with functions := m'.functions, globals := m'.globals }
  anyOrder : ∀ items : List (String × Export), items.Perm module.exports.entries →
    (m.withDevices module).absorbAll items = m'

theorem Machine.takes_merge (m module : Machine) :
    m.Takes module ((m.withDevices module).merge module.exports) where
  functions := get?_functions_merge _ _
  globals := get?_globals_merge _ _
  rest := absorbAll_eq _ _
  anyOrder _ h := absorbAll_perm _ _ h

/-- After its module has run, the importer is itself again. -/
theorem leaveModule_of_after {d : Nat} {p : Program} {path : String} {m module : Machine}
    (hrunning : m.isRunning path = false)
    (h : after (p.exec (invoke d) (fetch d)) (m.enterModule path) = module) :
    m.leaveModule module path = m.withDevices module := by
  subst h
  exact Machine.leaveModule_eq hrunning (closed_fixed.run ⟨.program d p, m.enterModule path⟩)

theorem Machine.resolve_of_target {m : Machine} {requested path : String}
    (h : m.target requested = .ok path) : ∃ text, m.disk.resolve text = .ok path := by
  unfold Machine.target at h
  split at h
  · cases h
  · split at h
    · cases h
    · next hresolve =>
      cases h
      exact ⟨_, hresolve⟩

/-- An import as a function of what it meets on the way. -/
theorem fetch_succ (d : Nat) (requested : String) (line : Nat) (m : Machine) :
    fetch (d + 1) requested line m =
      match m.target requested with
      | .error fault => .error (.error (.run line fault)) m
      | .ok path =>
        if m.isRunning path then .ok () m
        else match m.disk.readText path with
          | .error reason => .error (.error (.run line (.moduleRead path reason))) m
          | .ok source =>
            match Program.parse source with
            | .error e => .error (.error (.inModule path line e)) m
            | .ok p =>
              match p.exec (invoke d) (fetch d) (m.enterModule path) with
              | .error halt m' => .error (halt.fromModule path line) (m.withDevices m')
              | .ok _ m' => .ok () ((m.withDevices m').merge m'.exports) := by
  have himports := fetch_imports d requested line m
  generalize fetch (d + 1) requested line m = result at himports ⊢
  cases himports with
  | unresolved htarget => simp only [htarget]
  | skipped htarget hrunning => simp only [htarget, hrunning, if_true]
  | unread htarget hrunning hread =>
    simp only [htarget, hrunning, hread, Bool.false_eq_true, if_false]
  | unparsed htarget hrunning hread hparse =>
    simp only [htarget, hrunning, hread, hparse, Bool.false_eq_true, if_false]
  | failed htarget hrunning hread hparse hrun =>
    simp only [htarget, hrunning, hread, hparse, hrun, Bool.false_eq_true, if_false]
    rw [leaveModule_of_after hrunning (after_of_error hrun)]
  | merged htarget hrunning hread hparse hrun =>
    simp only [htarget, hrunning, hread, hparse, hrun, Bool.false_eq_true, if_false]
    rw [leaveModule_of_after hrunning (after_of_ok hrun)]

section

variable {depth : Nat} {requested : String} {line : Nat} {m m' : Machine}

theorem fetch_error {halt : Halt} (h : fetch depth requested line m = .error halt m') :
    m' = m.withDevices m' := by
  cases depth with
  | zero =>
    rw [fetch] at h
    cases h
    rfl
  | succ depth =>
    have himports := fetch_imports depth requested line m
    rw [h] at himports
    cases himports with
    | unresolved | unread | unparsed => rfl
    | failed _ hrunning _ _ hrun =>
      rw [leaveModule_of_after hrunning (after_of_error hrun)]
      rfl

theorem fetch_ok (h : fetch depth requested line m = .ok () m') :
    0 < depth ∧ m.Skips requested ∧ m' = m ∨
      ∃ module, Executes m requested depth module ∧ m.Takes module m' := by
  cases depth with
  | zero =>
    rw [fetch] at h
    cases h
  | succ depth =>
    have himports := fetch_imports depth requested line m
    rw [h] at himports
    cases himports with
    | skipped htarget hrunning => exact .inl ⟨Nat.succ_pos depth, ⟨_, htarget, hrunning⟩, rfl⟩
    | @merged path source p module htarget hrunning hread hparse hrun =>
      refine .inr ⟨module, .intro htarget hrunning hread hparse hrun, ?_⟩
      rw [leaveModule_of_after hrunning (after_of_ok hrun)]
      exact m.takes_merge module

theorem fetch_of_skips (hdepth : 0 < depth) (h : m.Skips requested) :
    fetch depth requested line m = .ok () m := by
  obtain ⟨path, htarget, hrunning⟩ := h
  obtain ⟨depth, rfl⟩ := Nat.exists_eq_succ_of_ne_zero (Nat.ne_of_gt hdepth)
  rw [fetch, importModule_apply, htarget]
  exact if_pos hrunning

theorem fetch_of_executes {module : Machine} (h : Executes m requested depth module)
    (htakes : m.Takes module m') : fetch depth requested line m = .ok () m' := by
  obtain @⟨depth, path, source, p, _, htarget, hrunning, hread, hparse, hrun⟩ := h
  have himports := fetch_imports depth requested line m
  generalize fetch (depth + 1) requested line m = result at himports ⊢
  -- what the module did rules out every other outcome, one fact after the other
  cases himports with
  | unresolved htarget' => cases htarget.symm.trans htarget'
  | skipped htarget' hrunning' =>
    cases htarget.symm.trans htarget'
    cases hrunning.symm.trans hrunning'
  | unread htarget' _ hread' =>
    cases htarget.symm.trans htarget'
    cases hread.symm.trans hread'
  | unparsed htarget' _ hread' hparse' =>
    cases htarget.symm.trans htarget'
    cases hread.symm.trans hread'
    cases hparse.symm.trans hparse'
  | failed htarget' _ hread' hparse' hrun' =>
    cases htarget.symm.trans htarget'
    cases hread.symm.trans hread'
    cases hparse.symm.trans hparse'
    cases hrun.symm.trans hrun'
  | merged htarget' _ hread' hparse' hrun' =>
    cases htarget.symm.trans htarget'
    cases hread.symm.trans hread'
    cases hparse.symm.trans hparse'
    cases hrun.symm.trans hrun'
    rw [leaveModule_of_after hrunning (after_of_ok hrun), ← htakes.anyOrder _ (.refl _)]
    rfl

end

/-- The outcome of an import, for all machines and disks. -/
theorem fetch_atomic (depth : Nat) (requested : String) (line : Nat) (m : Machine) :
    (∀ halt m', fetch depth requested line m = .error halt m' → m' = m.withDevices m') ∧
      ∀ m', fetch depth requested line m = .ok () m' ↔
        0 < depth ∧ m.Skips requested ∧ m' = m ∨
          ∃ module, Executes m requested depth module ∧ m.Takes module m' := by
  refine ⟨fun halt m' => fetch_error, fun m' => ⟨fetch_ok, ?_⟩⟩
  rintro (⟨hdepth, hskips, rfl⟩ | ⟨module, hexecutes, htakes⟩)
  · exact fetch_of_skips hdepth hskips
  · exact fetch_of_executes hexecutes htakes

end TagScript
