import TagScript.Proofs.ImportStack

/-!
# What the tables of functions and exports always are

A `TableInvariant` holds of a machine on account of its functions and exports alone, of the tables
that programs and modules start with, and across all that changes these tables. Such a property
holds after every session and at every moment of it: `TableInvariant.session` and
`TableInvariant.moment`.

Two are wanted. Built-in functions have no other names than their own, `Machine.InPlace`, so that
code which does not name one does not run it. And every name of a built-in function is the name of
some function, `Machine.Stocked`, since no name ever leaves the table.
-/

namespace TagScript

open Activation

/-! ### Invariants -/

/-- A property of machines that depends on functions and exports only, and that no run breaks. -/
structure TableInvariant (I : Machine → Prop) : Prop where
  congr : ∀ {m m' : Machine}, I m → m'.functions = m.functions → m'.exports = m.exports → I m'
  fresh : ∀ {m : Machine}, m.functions = Function.builtins → m.exports = ∅ → I m
  define : ∀ {m : Machine} (f : FunctionDecl), I m →
    I { m with functions := m.functions.insert f.name (.user f) }
  launch : ∀ {m : Machine} {name : String} {item : Export}, I m → m.export? name = some item →
    I { m with exports := m.exports.insert name item }
  merge : ∀ {m module : Machine}, I m → I module → I (m.merge module.exports)

theorem tableInvariant_true : TableInvariant fun _ => True where
  congr _ _ _ := trivial
  fresh _ _ := trivial
  define _ _ := trivial
  launch _ _ := trivial
  merge _ _ := trivial

namespace TableInvariant

variable {I : Machine → Prop} (hI : TableInvariant I)

include hI

theorem change {m m' : Machine} (h : m.Change m') (hm : I m) : I m' := by
  cases h with
  | declare name value tag =>
    obtain ⟨globals, scopes, heq⟩ := m.declare_eq name (.slot value tag)
    rw [heq]
    exact hI.congr hm rfl rfl
  | assign h =>
    obtain ⟨globals, scopes, rfl⟩ := Machine.assign_eq h
    exact hI.congr hm rfl rfl
  | define f => exact hI.define f hm
  | launch h => exact hI.launch hm h
  | _ => exact hI.congr hm rfl rfl

theorem closedFrom : ClosedFrom (fun a => I a.start) fun m m' => I m → I m' where
  refl _ := id
  trans h h' hm := h' (h hm)
  calls {a b} hok hcall hstart := by
    cases hcall with
    | inside | frame | load => exact hI.congr hok rfl rfl
    | module => exact hI.fresh rfl rfl
    | _ => exact hstart trivial hok
  acts _ _ h hm := hI.change h.change hm
  block hm h _ := hI.congr (h (hI.congr hm rfl rfl)) rfl rfl
  frame hm h _ := hI.congr (h (hI.congr hm rfl rfl)) rfl rfl
  module hm _ _ := hI.congr hm rfl rfl
  mark hm _ h _ := hI.congr (h (hI.congr hm rfl rfl)) rfl rfl
  merge hm _ h _ := hI.merge (hI.congr hm rfl rfl) (h (hI.fresh rfl rfl))

theorem after_hostOp (op : HostOp) {m : Machine} (hm : I m) : I (op.after m) := by
  cases op with
  | run depth p => exact hI.closedFrom.run ⟨.program depth p, m⟩ hm hm
  | runFile depth path =>
    rw [HostOp.after]
    rcases HostOp.after_runFile depth path m with h | ⟨resolved, p, -, h⟩
    · rw [h]
      exact hm
    · have hstart : I (m.enterScript resolved) := hI.congr hm rfl rfl
      rw [h]
      exact hI.congr
        (hI.closedFrom.run ⟨.program depth p, m.enterScript resolved⟩ hstart hstart) rfl rfl
  | eval depth scopes e =>
    have hstart : I { m with scopes } := hI.congr hm rfl rfl
    exact hI.congr (hI.closedFrom.run ⟨.expr depth e, { m with scopes }⟩ hstart hstart) rfl rfl
  | defineConstant name value => exact hI.congr hm rfl rfl
  | setDevices console disk draws => exact hI.congr hm rfl rfl

theorem session (registry : Registry) (ops : List HostOp) : I (session registry ops) := by
  have hstart : I { registry } := hI.fresh rfl rfl
  unfold TagScript.session
  generalize ({ registry } : Machine) = m at hstart ⊢
  induction ops generalizing m with
  | nil => exact hstart
  | cons op rest ih => exact ih _ (hI.after_hostOp op hstart)

theorem moment {op : HostOp} {m m' : Machine} {paths : List String} (h : op.Moment m paths m')
    (hm : I m) : I m' := by
  have hbegins : ∀ {entry a}, op.Begins m entry a → I a.start := by
    rintro entry a (_ | _ | _)
    · exact hm
    · exact hI.congr hm rfl rfl
    · exact hI.congr hm rfl rfl
  cases h with
  | start hbegin hstack => exact hI.closedFrom.stack hstack (hbegins hbegin)
  | finish hbegin hstack =>
    have hstart := hI.closedFrom.stack hstack (hbegins hbegin)
    exact hI.closedFrom.run _ hstart hstart

end TableInvariant

/-! ### Names of built-in functions -/

/-- The functions that are there from the start are built in and have their own names. -/
theorem eq_of_get?_builtins {name : String} {f : Function}
    (h : Function.builtins.get? name = some f) : ∃ b : Builtin, f = .builtin b ∧ b.name = name := by
  have hall : ∀ (bs : List Builtin) (t : Table Function),
      (∀ name f, t.get? name = some f → ∃ b : Builtin, f = .builtin b ∧ b.name = name) →
      ∀ name f, ((bs.map fun b => (b.name, Function.builtin b)).foldl
        (fun t (name, value) => t.insert name value) t).get? name = some f →
          ∃ b : Builtin, f = .builtin b ∧ b.name = name := by
    intro bs
    induction bs with
    | nil => exact fun t ht => ht
    | cons b bs ih =>
      intro t ht
      refine ih _ fun name f hf => ?_
      rw [Table.get?_insert] at hf
      split at hf
      · next hname => exact ⟨b, (Option.some.inj hf).symm, hname⟩
      · exact ht name f hf
  refine hall Builtin.all Table.empty (fun name f hf => ?_) name f h
  rw [Table.get?_empty] at hf
  cases hf

theorem builtin_of_get?_builtins {name : String} {f : Function}
    (h : Function.builtins.get? name = some f) : ∃ b, f = .builtin b := by
  obtain ⟨b, hb, -⟩ := eq_of_get?_builtins h
  exact ⟨b, hb⟩

/-- No function is declared from the start. -/
theorem get?_builtins_ne_user (name : String) (f : FunctionDecl) :
    Function.builtins.get? name ≠ some (.user f) := by
  intro h
  obtain ⟨b, hb, -⟩ := eq_of_get?_builtins h
  cases hb

/-- Built-in functions are known and exported by no other names than their own. -/
structure Machine.InPlace (m : Machine) : Prop where
  functions : ∀ name b, m.functions.get? name = some (.builtin b) → b.name = name
  exports : ∀ name b, m.exports.get? name = some (.function (.builtin b)) → b.name = name

theorem tableInvariant_inPlace : TableInvariant Machine.InPlace where
  congr h hfunctions hexports := ⟨hfunctions ▸ h.functions, hexports ▸ h.exports⟩
  fresh hfunctions hexports := by
    refine ⟨fun name b hb => ?_, fun name b hb => ?_⟩
    · rw [hfunctions] at hb
      obtain ⟨b', heq, hname⟩ := eq_of_get?_builtins hb
      cases heq
      exact hname
    · rw [hexports] at hb
      cases hb
  define {m} f h := by
    refine ⟨fun name b hb => ?_, h.exports⟩
    rw [Table.get?_insert] at hb
    split at hb
    · cases hb
    · exact h.functions name b hb
  launch {m name item} h hitem := by
    refine ⟨h.functions, fun other b hb => ?_⟩
    rw [Table.get?_insert] at hb
    split at hb
    · next heq =>
      cases hb
      obtain ⟨f, hf, hitem⟩ | ⟨-, b', -, hitem⟩ := Machine.export?_eq_some_iff.1 hitem
      · cases hitem
        exact heq ▸ h.functions name b hf
      · cases hitem
    · exact h.exports other b hb
  merge {m module} h hmodule := by
    refine ⟨fun name b hb => ?_, ?_⟩
    · rw [Machine.get?_functions_merge] at hb
      cases hname : module.exports.get? name with
      | none =>
        rw [hname] at hb
        exact h.functions name b hb
      | some item =>
        rw [hname] at hb
        cases item with
        | function f =>
          cases hb
          exact hmodule.exports name b hname
        | global v => exact h.functions name b hb
    · rw [Machine.merge, Machine.absorbAll_eq]
      exact h.exports

/-! ### No name leaves the table -/

/-- Every name of a built-in function can be called. -/
def Machine.Stocked (m : Machine) : Prop :=
  ∀ b : Builtin, m.functions.contains b.name = true

theorem Table.contains_insert {α : Type} {t : Table α} {name : String} (other : String) (value : α)
    (h : t.contains name = true) : (t.insert other value).contains name = true := by
  unfold Table.contains at h ⊢
  rw [Table.get?_insert]
  split
  · rfl
  · exact h

theorem Machine.contains_functions_merge {m : Machine} {name : String} (exports : Table Export)
    (h : m.functions.contains name = true) :
    (m.merge exports).functions.contains name = true := by
  unfold Table.contains at h ⊢
  rw [get?_functions_merge]
  cases (exports.get? name).bind Export.function? with
  | none => exact h
  | some f => rfl

theorem tableInvariant_stocked : TableInvariant Machine.Stocked where
  congr h hfunctions _ := by
    unfold Machine.Stocked at h ⊢
    rwa [hfunctions]
  fresh hfunctions _ := by
    intro b
    rw [hfunctions]
    cases b <;> rfl
  define _ h b := Table.contains_insert _ _ (h b)
  launch h _ := h
  merge h _ b := Machine.contains_functions_merge _ (h b)

/-- The names of functions before a run are names of functions after it. -/
def Machine.FunctionsGrow (m m' : Machine) : Prop :=
  ∀ name, m.functions.contains name = true → m'.functions.contains name = true

theorem closed_functionsGrow : Closed Machine.FunctionsGrow where
  refl _ _ := id
  trans h h' name hname := h' name (h name hname)
  change {m m'} h name hname := by
    cases h with
    | declare name value tag =>
      obtain ⟨globals, scopes, heq⟩ := m.declare_eq name (.slot value tag)
      rwa [heq]
    | assign h =>
      obtain ⟨globals, scopes, rfl⟩ := Machine.assign_eq h
      exact hname
    | define f => exact Table.contains_insert _ _ hname
    | _ => exact hname
  block h := h
  frame _ h := h
  module _ _ := id
  mark _ h := h
  merge _ _ _ hname := Machine.contains_functions_merge _ hname

end TagScript
