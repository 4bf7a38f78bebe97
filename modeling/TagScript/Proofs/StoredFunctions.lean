import TagScript.Proofs.FunctionTable

/-!
# Stored functions

`Machine.Stores F D m`: of every function that can be called and the name it is called by, `F`
holds, and `D` holds of the disk. A run stores no functions but those that its code declares and
those that modules export, which are functions of theirs. So `F` is kept if it holds of what the
code declares. `CodeInvariant` says this together with what is known of the code, since code calls
what is stored and stores what it declares; `CodeInvariant.closedFrom` is the run.
-/

namespace TagScript

open Activation

section

variable (F : String → Function → Prop) (D : Disk → Prop)

structure Machine.Stores (m : Machine) : Prop where
  functions : ∀ name f, m.functions.get? name = some f → F name f
  disk : D m.disk

/-- A run that starts with functions as `F` says ends with such, and what it launches is as `F` says
too. What was launched before may be anything. -/
structure Machine.KeepsStored (m m' : Machine) : Prop where
  disk : m'.disk = m.disk
  machine : m.Stores F D → m'.Stores F D
  exports : m.Stores F D → ∀ name f, m'.exports.get? name = some (.function f) →
    m.exports.get? name = some (.function f) ∨ F name f

/-- `T` holds of what is called if it holds of the caller and `F` of the functions there, and `F`
holds of the functions that such code declares. -/
structure CodeInvariant (T : Activation → Prop) : Prop where
  builtin : ∀ b : Builtin, F b.name (.builtin b)
  calls : ∀ {a b}, T a → a.start.Stores F D → a.Calls b → T b
  define : ∀ {d name result params body line m},
    T ⟨.stmt d (.define name result params body line), m⟩ →
      F name (.user ⟨name, result, params, body, line⟩)

end

variable {F : String → Function → Prop} {D : Disk → Prop}

/-! ### Machines -/

namespace Machine

variable {m m' : Machine}

theorem Stores.congr (h : m.Stores F D) (hfunctions : m'.functions = m.functions)
    (hdisk : m'.disk = m.disk) : m'.Stores F D :=
  ⟨hfunctions ▸ h.functions, hdisk ▸ h.disk⟩

/-- A module starts with built-in functions under their own names. -/
theorem Stores.forModule (h : m.Stores F D) (hF : ∀ b : Builtin, F b.name (.builtin b))
    (path : String) : (m.forModule path).Stores F D := by
  refine ⟨fun name f hf => ?_, h.disk⟩
  obtain ⟨b, rfl, rfl⟩ := eq_of_get?_builtins hf
  exact hF b

theorem Stores.insert (h : m.Stores F D) {name : String} {f : Function} (hf : F name f) :
    Stores F D { m with functions := m.functions.insert name f } := by
  refine ⟨fun other g hg => ?_, h.disk⟩
  rw [Table.get?_insert] at hg
  split at hg
  · next heq =>
    cases hg
    exact heq ▸ hf
  · exact h.functions other g hg

/-- What a machine exports are functions that it stores. -/
theorem Stores.export? (h : m.Stores F D) {name : String} {f : Function}
    (hf : m.export? name = some (.function f)) : F name f := by
  obtain ⟨g, hg, heq⟩ | ⟨-, b, -, heq⟩ := Machine.export?_eq_some_iff.1 hf
  · cases heq
    exact h.functions name f hg
  · cases heq

theorem Stores.merge (h : m.Stores F D) {exports : Table Export}
    (hexports : ∀ name f, exports.get? name = some (.function f) → F name f) :
    (m.merge exports).Stores F D := by
  refine ⟨fun name f hf => ?_, ?_⟩
  · rw [get?_functions_merge] at hf
    cases hname : exports.get? name with
    | none =>
      rw [hname] at hf
      exact h.functions name f hf
    | some item =>
      rw [hname] at hf
      cases item with
      | function g =>
        cases hf
        exact hexports name _ hname
      | global b => exact h.functions name f hf
  · rw [Machine.merge, absorbAll_eq]
    exact h.disk

namespace KeepsStored

theorem of_eq (hfunctions : m'.functions = m.functions) (hexports : m'.exports = m.exports)
    (hdisk : m'.disk = m.disk) : m.KeepsStored F D m' where
  disk := hdisk
  machine h := h.congr hfunctions hdisk
  exports _ _ _ hf := .inl (hexports ▸ hf)

theorem trans {m'' : Machine} (h : m.KeepsStored F D m') (h' : m'.KeepsStored F D m'') :
    m.KeepsStored F D m'' := by
  refine ⟨h'.disk.trans h.disk, fun hm => h'.machine (h.machine hm), fun hm name f hf => ?_⟩
  rcases h'.exports (h.machine hm) name f hf with hf | hf
  · exact h.exports hm name f hf
  · exact .inr hf

/-- Other parts of the machine may be put aside for a run, and put back. -/
theorem congr {n n' : Machine} (h : m.KeepsStored F D m')
    (hm : n.functions = m.functions ∧ n.exports = m.exports ∧ n.disk = m.disk)
    (hm' : n'.functions = m'.functions ∧ n'.exports = m'.exports ∧ n'.disk = m'.disk) :
    n.KeepsStored F D n' := by
  have hstart : n.KeepsStored F D m := .of_eq hm.1.symm hm.2.1.symm hm.2.2.symm
  exact hstart.trans (h.trans (.of_eq hm'.1 hm'.2.1 hm'.2.2))

end KeepsStored

end Machine

/-! ### Runs -/

namespace CodeInvariant

variable {T : Activation → Prop} (hT : CodeInvariant F D T)

include hT

theorem keeps_acts {a : Activation} (ha : T a) {m m' : Machine} (h : a.Acts m m') :
    m.KeepsStored F D m' := by
  cases h with
  | builtin _ h => cases h <;> exact .of_eq rfl rfl rfl
  | declare value =>
    obtain ⟨globals, scopes, heq⟩ := m.declare_eq _ (.slot value _)
    rw [heq]
    exact .of_eq rfl rfl rfl
  | assign h =>
    obtain ⟨globals, scopes, rfl⟩ := Machine.assign_eq h
    exact .of_eq rfl rfl rfl
  | define => exact ⟨rfl, fun hm => hm.insert (hT.define ha), fun _ _ _ hf => .inl hf⟩
  | @launch d names line start _ name item _ hitem =>
    refine ⟨rfl, fun hm => hm.congr rfl rfl, fun hm other f hf => ?_⟩
    rw [Table.get?_insert] at hf
    split at hf
    · next heq =>
      cases hf
      exact .inr (heq ▸ hm.export? hitem)
    · exact .inl hf

/-- The importer of a module gets functions that the module has launched, and these are as `F`
says. -/
theorem keeps_merge {m m' : Machine} {path : String}
    (h : (m.enterModule path).KeepsStored F D m') :
    m.KeepsStored F D ((m.leaveModule m' path).merge m'.exports) := by
  have hdisk : ((m.leaveModule m' path).merge m'.exports).disk = m.disk := by
    rw [Machine.merge, Machine.absorbAll_eq]
    exact h.disk
  refine ⟨hdisk, fun hm => ?_, fun hm name f hf => .inl ?_⟩
  · have hstart : (m.enterModule path).Stores F D :=
      (hm.forModule hT.builtin path).congr rfl rfl
    have hleave : (m.leaveModule m' path).Stores F D := hm.congr rfl h.disk
    refine hleave.merge fun name f hf => ?_
    rcases h.exports hstart name f hf with hnone | hf
    · cases hnone
    · exact hf
  · rw [Machine.merge, Machine.absorbAll_eq] at hf
    exact hf

theorem closedFrom :
    ClosedFrom (fun a => T a ∧ a.start.Stores F D) (Machine.KeepsStored F D) where
  refl _ := .of_eq rfl rfl rfl
  trans h h' := h.trans h'
  calls {a b} hok hcall hstart := by
    refine ⟨hT.calls hok.1 hok.2 hcall, ?_⟩
    cases hcall with
    | inside | frame | load => exact hok.2.congr rfl rfl
    | module => exact hok.2.forModule hT.builtin _
    | _ => exact (hstart trivial).machine hok.2
  acts hok _ h := hT.keeps_acts hok.1 h
  block _ h := h.congr ⟨rfl, rfl, rfl⟩ ⟨rfl, rfl, rfl⟩
  frame _ h := h.congr ⟨rfl, rfl, rfl⟩ ⟨rfl, rfl, rfl⟩
  module _ h := ⟨h.disk, fun hm => hm.congr rfl h.disk, fun _ _ _ hf => .inl hf⟩
  mark _ _ h := h.congr ⟨rfl, rfl, rfl⟩ ⟨rfl, rfl, rfl⟩
  merge _ _ h := hT.keeps_merge h

end CodeInvariant

end TagScript
