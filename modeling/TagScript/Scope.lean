import TagScript.Table
import TagScript.TypeWord
import TagScript.Value.Basic

/-!
# Bindings and scopes

A name is bound to a slot, which can be assigned and carries a tag, or to a raw value, which a host
put there and no script can assign. A scope is a table of bindings; scopes stack up, the innermost
first, and a name means its binding in the first scope that has one.
-/

namespace TagScript

inductive Binding where
  | slot (value : Value) (tag : Option Tag)
  | raw (value : Value)
deriving DecidableEq

namespace Binding

def value : Binding → Value
  | slot value _ => value
  | raw value => value

def tag : Binding → Option Tag
  | slot _ tag => tag
  | raw _ => none

/-- The binding with another value, if it can be assigned. -/
def assign? (value : Value) : Binding → Option Binding
  | slot _ tag => some (slot value tag)
  | raw _ => none

end Binding

abbrev Scope := Table Binding

/-- What comes of an assignment. -/
inductive Assigned (α : Type) where
  | done (result : α)
  /-- The name is bound, but not to a slot. -/
  | refused
  /-- The name is not bound. -/
  | absent

namespace Assigned

def map {α β : Type} (f : α → β) : Assigned α → Assigned β
  | done result => done (f result)
  | refused => refused
  | absent => absent

end Assigned

namespace Scope

/-- Assigns to a name that the scope itself binds. -/
def assign (s : Scope) (name : String) (value : Value) : Assigned Scope :=
  match s.get? name with
  | none => .absent
  | some binding =>
    match binding.assign? value with
    | some binding => .done (s.insert name binding)
    | none => .refused

/-- The binding of a name in a stack of scopes. -/
def lookup : List Scope → String → Option Binding
  | [], _ => none
  | s :: outer, name =>
    match s.get? name with
    | some binding => some binding
    | none => lookup outer name

/-- How many scopes are below the one that binds a name. -/
def ownerDepth? : List Scope → String → Option Nat
  | [], _ => none
  | s :: outer, name => if s.contains name then some outer.length else ownerDepth? outer name

/-- Assigns to a name in the scope that has the given number of scopes below it. -/
def assignAt : List Scope → Nat → String → Value → Assigned (List Scope)
  | [], _, _, _ => .absent
  | s :: outer, depth, name, value =>
    if outer.length = depth then (s.assign name value).map (· :: outer)
    else (assignAt outer depth name value).map (s :: ·)

/-- Assigns to a name in the innermost scope that binds it, by one search instead of two. -/
def assignInnermost : List Scope → String → Value → Assigned (List Scope)
  | [], _, _ => .absent
  | s :: outer, name, value =>
    match s.assign name value with
    | .done s => .done (s :: outer)
    | .refused => .refused
    | .absent => (assignInnermost outer name value).map (s :: ·)

theorem assign_eq_absent_iff {s : Scope} {name : String} {value : Value} :
    s.assign name value = .absent ↔ s.contains name = false := by
  rw [Table.contains, assign]
  cases s.get? name with
  | none => simp
  | some binding => cases binding <;> simp [Binding.assign?]

theorem lt_of_ownerDepth? {scopes : List Scope} {name : String} {depth : Nat}
    (h : ownerDepth? scopes name = some depth) : depth < scopes.length := by
  induction scopes with
  | nil => cases h
  | cons s outer ih =>
    rw [ownerDepth?] at h
    rw [List.length_cons]
    split at h
    · cases h
      omega
    · have := ih h
      omega

/-- To assign in the scope that owns a name is to assign in the innermost scope that binds it. -/
theorem assignAt_ownerDepth? {scopes : List Scope} {name : String} {value : Value} {depth : Nat}
    (h : ownerDepth? scopes name = some depth) :
    assignAt scopes depth name value = assignInnermost scopes name value := by
  induction scopes with
  | nil => cases h
  | cons s outer ih =>
    rw [ownerDepth?] at h
    rw [assignAt, assignInnermost]
    split at h
    · cases h
      rw [if_pos rfl]
      cases hassign : s.assign name value with
      | done => rfl
      | refused => rfl
      | absent => simp_all [assign_eq_absent_iff]
    · next hbinds =>
      have hlt := lt_of_ownerDepth? h
      rw [if_neg (by omega), ih h, assign_eq_absent_iff.2 (eq_false_of_ne_true hbinds)]

theorem assignInnermost_eq_absent_iff {scopes : List Scope} {name : String} {value : Value} :
    assignInnermost scopes name value = .absent ↔ ownerDepth? scopes name = none := by
  induction scopes with
  | nil => exact ⟨fun _ => rfl, fun _ => rfl⟩
  | cons s outer ih =>
    have hown : s.assign name value = .absent ↔ s.contains name = false := assign_eq_absent_iff
    rw [assignInnermost, ownerDepth?]
    cases hassign : s.assign name value with
    | absent =>
      rw [if_neg (by simp [hown.1 hassign]), ← ih]
      cases assignInnermost outer name value <;> simp [Assigned.map]
    | done => simp_all
    | refused => simp_all

end Scope

end TagScript
