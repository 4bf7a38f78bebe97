import TagScript.Proofs.Related

/-!
# Blocks and the scopes around them

`block_keeps_scopes`: a block leaves every scope around it with the names, kinds and tags that it
had. All that a block can do to these scopes is assign to slots, and only to those that it can see:
what a nearer scope shadows keeps its value too.

The relation between the scopes before and after is `Reassigned`. A block declares in a scope of its
own, which is dropped at its end, so `closed_outer` says that a run reassigns all scopes but the
innermost. What an assignment does is `assignInnermost_done`: it changes one binding, in the first
scope that has the name.
-/

namespace TagScript

/-! ### Assignments -/

theorem Scope.assign_done {s s' : Scope} {name : String} {value : Value}
    (h : s.assign name value = .done s') :
    ∃ old tag, s.get? name = some (.slot old tag) ∧ s' = s.insert name (.slot value tag) := by
  unfold Scope.assign at h
  cases hname : s.get? name with
  | none => simp [hname] at h
  | some binding =>
    cases binding with
    | slot old tag =>
      simp only [hname, Binding.assign?, Assigned.done.injEq] at h
      exact ⟨old, tag, rfl, h.symm⟩
    | raw value => simp [hname, Binding.assign?] at h

theorem Scope.get?_of_assign_absent {s : Scope} {name : String} {value : Value}
    (h : s.assign name value = .absent) : s.get? name = none := by
  unfold Scope.assign at h
  cases hname : s.get? name with
  | none => rfl
  | some binding => cases binding <;> simp [hname, Binding.assign?] at h

/-- An assignment changes the slot of a name in the first scope that has the name. -/
theorem Scope.assignInnermost_done {scopes scopes' : List Scope} {name : String} {value : Value}
    (h : Scope.assignInnermost scopes name value = .done scopes') :
    ∃ inner s outer old tag, scopes = inner ++ s :: outer ∧ (∀ t ∈ inner, t.get? name = none) ∧
      s.get? name = some (.slot old tag) ∧
        scopes' = inner ++ s.insert name (.slot value tag) :: outer := by
  induction scopes generalizing scopes' with
  | nil => cases h
  | cons s outer ih =>
    rw [Scope.assignInnermost] at h
    cases hs : s.assign name value with
    | done s' =>
      rw [hs] at h
      cases h
      obtain ⟨old, tag, hold, rfl⟩ := Scope.assign_done hs
      exact ⟨[], s, outer, old, tag, rfl, List.forall_mem_nil _, hold, rfl⟩
    | refused =>
      rw [hs] at h
      cases h
    | absent =>
      rw [hs] at h
      cases houter : Scope.assignInnermost outer name value with
      | done outer' =>
        rw [houter] at h
        cases h
        obtain ⟨inner, t, rest, old, tag, rfl, hinner, hold, rfl⟩ := ih houter
        refine ⟨s :: inner, t, rest, old, tag, rfl, ?_, hold, rfl⟩
        intro u hu
        rcases List.mem_cons.1 hu with rfl | hu
        · exact Scope.get?_of_assign_absent hs
        · exact hinner u hu
      | refused =>
        rw [houter] at h
        cases h
      | absent =>
        rw [houter] at h
        cases h

/-- An assignment goes to the scopes if one has the name, else to a global slot. -/
theorem Machine.assign_ok {m m' : Machine} {name : String} {value : Value}
    (h : m.assign name value = .ok m') :
    (∃ scopes, Scope.assignInnermost m.scopes name value = .done scopes ∧ m' = { m with scopes }) ∨
      ∃ old tag, m.globals.get? name = some (.slot old tag) ∧
        m' = { m with globals := m.globals.insert name (.slot value tag) } := by
  rw [Machine.assign_eq_innermost] at h
  split at h
  · next scopes hassign =>
    cases h
    exact .inl ⟨scopes, hassign, rfl⟩
  · cases h
  · split at h
    · next globals hassign =>
      cases h
      obtain ⟨old, tag, hold, rfl⟩ := Scope.assign_done hassign
      exact .inr ⟨old, tag, hold, rfl⟩
    · cases h
    · cases h

/-! ### Scopes before and after -/

/-- Bindings of one kind with one tag. Only the value of a slot may differ. -/
inductive Binding.SameSlot : Binding → Binding → Prop
  | slot (value value' : Value) (tag : Option Tag) : SameSlot (.slot value tag) (.slot value' tag)
  | raw (value : Value) : SameSlot (.raw value) (.raw value)

namespace Binding.SameSlot

theorem refl (b : Binding) : b.SameSlot b := by
  cases b with
  | slot value tag => exact .slot value value tag
  | raw value => exact .raw value

theorem trans {a b c : Binding} (h : a.SameSlot b) (h' : b.SameSlot c) : a.SameSlot c := by
  cases h with
  | slot value _ tag =>
    cases h' with
    | slot _ value' _ => exact .slot value value' tag
  | raw => exact h'

end Binding.SameSlot

theorem Table.Related.contains_eq {α : Type} {R : α → α → Prop} {s t : Table α}
    (h : s.Related R t) (name : String) : t.contains name = s.contains name := by
  have hname := h name
  unfold Table.contains
  generalize s.get? name = a, t.get? name = b at hname ⊢
  cases hname <;> rfl

/-- The same names in the same scopes, and the same bindings but for values of slots that no nearer
scope shadows. The innermost scope is the first. -/
structure Reassigned (scopes scopes' : List Scope) : Prop where
  length : scopes'.length = scopes.length
  bindings : ∀ {i : Nat} {s s' : Scope}, scopes[i]? = some s → scopes'[i]? = some s' →
    s.Related Binding.SameSlot s'
  shadowed : ∀ {i j : Nat} {s s' t : Scope} {name : String}, scopes[i]? = some s →
    scopes'[i]? = some s' → j < i → scopes[j]? = some t → t.contains name = true →
      s'.get? name = s.get? name

namespace Reassigned

variable {scopes scopes' scopes'' : List Scope}

theorem refl (scopes : List Scope) : Reassigned scopes scopes where
  length := rfl
  bindings hs hs' := by
    obtain rfl := Option.some.inj (hs.symm.trans hs')
    exact .refl fun _ b _ => .refl b
  shadowed hs hs' _ _ _ := by rw [Option.some.inj (hs.symm.trans hs')]

/-- Each scope has a counterpart. -/
theorem exists_scope (h : Reassigned scopes scopes') {i : Nat} {s : Scope}
    (hs : scopes[i]? = some s) : ∃ s', scopes'[i]? = some s' := by
  have hi : i < scopes'.length := by
    rw [h.length]
    exact (List.getElem?_eq_some_iff.1 hs).1
  exact ⟨scopes'[i], List.getElem?_eq_getElem hi⟩

theorem trans (h : Reassigned scopes scopes') (h' : Reassigned scopes' scopes'') :
    Reassigned scopes scopes'' where
  length := h'.length.trans h.length
  bindings {i s s''} hs hs'' := by
    obtain ⟨s', hs'⟩ := h.exists_scope hs
    intro name
    have hname := h.bindings hs hs' name
    have hname' := h'.bindings hs' hs'' name
    generalize s.get? name = a, s'.get? name = b, s''.get? name = c at hname hname' ⊢
    cases hname with
    | none => exact hname'
    | some hab =>
      cases hname' with
      | some hbc => exact .some (hab.trans hbc)
  shadowed {i j s s'' t name} hs hs'' hlt ht hname := by
    obtain ⟨s', hs'⟩ := h.exists_scope hs
    obtain ⟨t', ht'⟩ := h.exists_scope ht
    -- a scope that shadows before the first run still does before the second
    have hname' : t'.contains name = true := by
      rw [(h.bindings ht ht').contains_eq]
      exact hname
    rw [h'.shadowed hs' hs'' hlt ht' hname', h.shadowed hs hs' hlt ht hname]

theorem tail (h : Reassigned scopes scopes') : Reassigned scopes.tail scopes'.tail where
  length := by rw [List.length_tail, List.length_tail, h.length]
  bindings hs hs' := by
    rw [List.getElem?_tail] at hs hs'
    exact h.bindings hs hs'
  shadowed hs hs' hlt ht hname := by
    rw [List.getElem?_tail] at hs hs' ht
    exact h.shadowed hs hs' (Nat.succ_lt_succ hlt) ht hname

theorem of_assign {name : String} {value : Value}
    (h : Scope.assignInnermost scopes name value = .done scopes') : Reassigned scopes scopes' := by
  obtain ⟨inner, u, outer, old, tag, rfl, hinner, hold, rfl⟩ := Scope.assignInnermost_done h
  -- only the scope after `inner` changes, and there only the name, which `inner` does not have
  have hat : ∀ {i : Nat} {s s' : Scope}, (inner ++ u :: outer)[i]? = some s →
      (inner ++ u.insert name (.slot value tag) :: outer)[i]? = some s' →
        s' = s ∨ i = inner.length ∧ s = u ∧ s' = u.insert name (.slot value tag) := by
    intro i s s' hs hs'
    rcases Nat.lt_trichotomy i inner.length with hi | rfl | hi
    · rw [List.getElem?_append_left hi] at hs hs'
      exact .inl (Option.some.inj (hs'.symm.trans hs))
    · simp only [List.getElem?_append_right (Nat.le_refl _), Nat.sub_self,
        List.getElem?_cons_zero, Option.some.injEq] at hs hs'
      exact .inr ⟨rfl, hs.symm, hs'.symm⟩
    · obtain ⟨k, rfl⟩ := Nat.exists_eq_add_of_lt hi
      rw [List.getElem?_append_right (by omega)] at hs hs'
      rw [show inner.length + k + 1 - inner.length = k + 1 by omega, List.getElem?_cons_succ]
        at hs hs'
      exact .inl (Option.some.inj (hs'.symm.trans hs))
  refine ⟨by simp, fun {i s s'} hs hs' => ?_, fun {i j s s' t other} hs hs' hlt ht hother => ?_⟩
  · rcases hat hs hs' with rfl | ⟨-, rfl, rfl⟩
    · exact .refl fun _ b _ => .refl b
    · intro other
      rw [Table.get?_insert]
      split
      · next heq =>
        rw [← heq, hold]
        exact .some (.slot old value tag)
      · exact Table.Related.refl (fun _ b _ => .refl b) other
  · rcases hat hs hs' with rfl | ⟨rfl, rfl, rfl⟩
    · rfl
    · have hmem : t ∈ inner := by
        rw [List.getElem?_append_left hlt] at ht
        exact List.mem_of_getElem? ht
      have hne : name ≠ other := by
        rintro rfl
        simp [Table.contains, hinner t hmem] at hother
      rw [Table.get?_insert, if_neg hne]

end Reassigned

/-! ### Runs -/

/-- All scopes but the innermost are reassigned at most. -/
structure Machine.OuterReassigned (m m' : Machine) : Prop where
  nil_iff : m'.scopes = [] ↔ m.scopes = []
  outer : Reassigned m.scopes.tail m'.scopes.tail

namespace Machine

variable {m m' : Machine}

theorem OuterReassigned.of_reassigned (h : Reassigned m.scopes m'.scopes) : m.OuterReassigned m' :=
  ⟨by rw [← List.length_eq_zero_iff, h.length, List.length_eq_zero_iff], h.tail⟩

theorem OuterReassigned.of_eq (h : m'.scopes = m.scopes) : m.OuterReassigned m' :=
  .of_reassigned (h ▸ .refl _)

theorem Change.outerReassigned (h : m.Change m') : m.OuterReassigned m' := by
  cases h with
  | declare name value tag =>
    unfold Machine.declare
    split
    · exact .of_eq rfl
    · next s outer h =>
      refine ⟨by simp [h], ?_⟩
      rw [h]
      exact .refl _
  | assign h =>
    obtain ⟨scopes, hassign, rfl⟩ | ⟨old, tag, -, rfl⟩ := Machine.assign_ok h
    · exact .of_reassigned (.of_assign hassign)
    · exact .of_eq rfl
  | _ => exact .of_eq rfl

theorem scopes_merge (m : Machine) (exports : Table Export) :
    (m.merge exports).scopes = m.scopes := by
  rw [Machine.merge, absorbAll_eq]

end Machine

theorem closed_outer : Closed Machine.OuterReassigned where
  refl _ := .of_eq rfl
  trans h h' := ⟨h'.nil_iff.trans h.nil_iff, h.outer.trans h'.outer⟩
  change h := h.outerReassigned
  block h := .of_reassigned h.outer
  frame _ _ := .of_eq rfl
  module _ := .of_eq rfl
  mark _ h := ⟨h.nil_iff, h.outer⟩
  merge _ _ := .of_eq (Machine.scopes_merge _ _)

/-- A block, however it ends, leaves each scope around it with the same names and the same bindings,
but for the values of slots, and even these where a nearer scope has the name. -/
theorem block_keeps_scopes (depth : Nat) (b : Block) (m : Machine) :
    let m' := after (b.exec (invoke depth) (fetch depth)) m
    m'.scopes.length = m.scopes.length ∧
      ∀ (i : Nat) (s s' : Scope), m.scopes[i]? = some s → m'.scopes[i]? = some s' →
        (∀ name, Option.Rel Binding.SameSlot (s.get? name) (s'.get? name)) ∧
          ∀ (j : Nat) (t : Scope) (name : String), j < i → m.scopes[j]? = some t →
            t.contains name = true → s'.get? name = s.get? name := by
  intro m'
  have hscopes : Reassigned m.scopes m'.scopes := by
    obtain ⟨ss, line⟩ := b
    have hrun := closed_outer.run ⟨.stmts depth ss, { m with scopes := ∅ :: m.scopes }⟩
    have hm' : m'.scopes = (after (Stmt.execAll (invoke depth) (fetch depth) ss)
        { m with scopes := ∅ :: m.scopes }).scopes.tail := by
      show (after (Block.exec _ _ (.mk ss line)) m).scopes = _
      rw [Block.exec, after_inBlock]
    rw [hm']
    exact hrun.outer
  refine ⟨hscopes.length, fun i s s' hs hs' => ⟨hscopes.bindings hs hs', ?_⟩⟩
  exact fun j t name hlt ht hname => hscopes.shadowed hs hs' hlt ht hname

end TagScript
