import TagScript.Proofs.Constants
import TagScript.Proofs.LocalScopes

/-!
# Assignments

To look a name up, to find the scope that owns it, to check that it can be assigned and to assign it
are four searches through the scopes. `assign_owner` says that all of them come to one binding. An
assignment succeeds exactly if the check does, and then it changes the value of this binding and
nothing else, whatever is shadowed by it.

A statement that assigns makes the check before it computes the value, and any code can run in
between. `set_checked`: that code cannot make the assignment fail but by deleting a global variable.
Scopes are out of its reach, and no code turns a variable into a constant (`closed_noNewRaw`).
-/

namespace TagScript

/-! ### Places -/

/-- A place for bindings. -/
inductive Place where
  /-- The scope with the given number of scopes below it. -/
  | scope (depth : Nat)
  | globals
deriving DecidableEq

namespace Machine

/-- The bindings at a place. -/
def table? (m : Machine) : Place → Option Scope
  | .scope d => m.scopes.reverse[d]?
  | .globals => some m.globals

def bindingAt (m : Machine) (place : Place) (name : String) : Option Binding :=
  (m.table? place).bind (·.get? name)

/-- Where the binding is that a name means. -/
def owner (m : Machine) (name : String) : Place :=
  match Scope.ownerDepth? m.scopes name with
  | some d => .scope d
  | none => .globals

/-- The place is that of the innermost scope that binds a name, or the globals if no scope does. -/
inductive Innermost (m : Machine) (name : String) : Place → Prop
  | scope {d : Nat} : m.bindingAt (.scope d) name ≠ none →
    (∀ d', d < d' → m.bindingAt (.scope d') name = none) → Innermost m name (.scope d)
  | globals : (∀ d, m.bindingAt (.scope d) name = none) → Innermost m name .globals

/-- The value is stored in the binding that the name means, which is a slot, and nothing else
changes. -/
structure Assigns (m : Machine) (name : String) (value : Value) (m' : Machine) : Prop where
  target : ∃ old tag, m.bindingAt (m.owner name) name = some (.slot old tag) ∧
    m'.bindingAt (m.owner name) name = some (.slot value tag) ∧
      m'.lookup name = some (.slot value tag)
  others : ∀ place other, place ≠ m.owner name ∨ other ≠ name →
    m'.bindingAt place other = m.bindingAt place other
  /-- Other names mean the same, seen from any of the scopes. -/
  lookups : ∀ k other, other ≠ name →
    lookup { m' with scopes := m'.scopes.drop k } other =
      lookup { m with scopes := m.scopes.drop k } other
  length : m'.scopes.length = m.scopes.length
  rest : m' = { m with globals := m'.globals, scopes := m'.scopes }

end Machine

/-! ### The innermost scope with a name -/

namespace Scope

/-- The innermost scope that binds the name is `s`, and `b` is the binding. -/
structure Owned (name : String) (b : Binding) (scopes inner : List Scope) (s : Scope)
    (outer : List Scope) : Prop where
  scopes_eq : scopes = inner ++ s :: outer
  unbound : ∀ t ∈ inner, t.get? name = none
  bound : s.get? name = some b

/-- A name is bound in no scope, or one scope is the innermost that binds it. -/
theorem unbound_or_owned (scopes : List Scope) (name : String) :
    (∀ t ∈ scopes, t.get? name = none) ∨ ∃ b inner s outer, Owned name b scopes inner s outer := by
  induction scopes with
  | nil => exact .inl nofun
  | cons s outer ih =>
    cases hs : s.get? name with
    | some b => exact .inr ⟨b, [], s, outer, rfl, nofun, hs⟩
    | none =>
      rcases ih with houter | ⟨b, inner, t, rest, rfl, hinner, hbound⟩
      · exact .inl (List.forall_mem_cons.2 ⟨hs, houter⟩)
      · exact .inr ⟨b, s :: inner, t, rest, rfl, List.forall_mem_cons.2 ⟨hs, hinner⟩, hbound⟩

section

variable {name : String} {b : Binding} {scopes inner outer : List Scope} {s : Scope}

theorem lookup_eq_none (h : ∀ t ∈ scopes, t.get? name = none) : lookup scopes name = none := by
  induction scopes with
  | nil => rfl
  | cons t rest ih =>
    obtain ⟨ht, hrest⟩ := List.forall_mem_cons.1 h
    simp [lookup, ht, ih hrest]

theorem ownerDepth?_eq_none (h : ∀ t ∈ scopes, t.get? name = none) :
    ownerDepth? scopes name = none := by
  induction scopes with
  | nil => rfl
  | cons t rest ih =>
    obtain ⟨ht, hrest⟩ := List.forall_mem_cons.1 h
    simp [ownerDepth?, Table.contains, ht, ih hrest]

theorem assignInnermost_eq_absent (h : ∀ t ∈ scopes, t.get? name = none) (value : Value) :
    assignInnermost scopes name value = .absent := by
  induction scopes with
  | nil => rfl
  | cons t rest ih =>
    obtain ⟨ht, hrest⟩ := List.forall_mem_cons.1 h
    simp [assignInnermost, assign, ht, ih hrest, Assigned.map]

theorem Owned.lookup_eq (h : Owned name b scopes inner s outer) : lookup scopes name = some b := by
  obtain ⟨rfl, hunbound, hbound⟩ := h
  induction inner with
  | nil => simp [lookup, hbound]
  | cons t inner ih =>
    obtain ⟨ht, hinner⟩ := List.forall_mem_cons.1 hunbound
    simp [lookup, ht, ih hinner]

theorem Owned.ownerDepth?_eq (h : Owned name b scopes inner s outer) :
    ownerDepth? scopes name = some outer.length := by
  obtain ⟨rfl, hunbound, hbound⟩ := h
  induction inner with
  | nil => simp [ownerDepth?, Table.contains, hbound]
  | cons t inner ih =>
    obtain ⟨ht, hinner⟩ := List.forall_mem_cons.1 hunbound
    simp [ownerDepth?, Table.contains, ht, ih hinner]

theorem Owned.assignInnermost_eq (h : Owned name b scopes inner s outer) (value : Value) :
    assignInnermost scopes name value =
      match b.assign? value with
      | some b' => .done (inner ++ s.insert name b' :: outer)
      | none => .refused := by
  obtain ⟨rfl, hunbound, hbound⟩ := h
  induction inner with
  | nil =>
    cases b with
    | slot old tag => simp [assignInnermost, assign, hbound, Binding.assign?]
    | raw v => simp [assignInnermost, assign, hbound, Binding.assign?]
  | cons t inner ih =>
    obtain ⟨ht, hinner⟩ := List.forall_mem_cons.1 hunbound
    have htail := ih hinner
    cases b with
    | slot old tag => simp_all [assignInnermost, assign, Binding.assign?, Assigned.map]
    | raw v => simp_all [assignInnermost, assign, Binding.assign?, Assigned.map]

end

/-- Scopes that bind a name alike, one by one, look it up alike. -/
theorem lookup_congr {name : String} {scopes scopes' : List Scope}
    (h : List.Forall₂ (fun s s' : Scope => s'.get? name = s.get? name) scopes scopes') :
    lookup scopes' name = lookup scopes name := by
  induction h with
  | nil => rfl
  | cons hs _ ih => rw [lookup, lookup, hs, ih]

end Scope

/-- Scopes counted from the outermost. -/
theorem getElem?_reverse_split (inner outer : List Scope) (s : Scope) (d : Nat) :
    (inner ++ s :: outer).reverse[d]? =
      if d < outer.length then outer.reverse[d]?
      else if d = outer.length then some s
      else inner.reverse[d - outer.length - 1]? := by
  have hreverse : (inner ++ s :: outer).reverse = outer.reverse ++ s :: inner.reverse := by simp
  rw [hreverse]
  by_cases hlt : d < outer.length
  · rw [if_pos hlt, List.getElem?_append_left (by simpa using hlt)]
  · rw [if_neg hlt, List.getElem?_append_right (by simpa using hlt), List.length_reverse]
    by_cases heq : d = outer.length
    · simp [heq]
    · obtain ⟨k, hk⟩ : ∃ k, d - outer.length = k + 1 := ⟨d - outer.length - 1, by omega⟩
      rw [if_neg heq, hk, List.getElem?_cons_succ, Nat.add_sub_cancel]

namespace Machine

variable {m m' : Machine} {name : String} {b : Binding} {inner outer : List Scope} {s : Scope}

/-! ### The owner of a name -/

theorem owner_of_unbound (h : ∀ t ∈ m.scopes, t.get? name = none) : m.owner name = .globals := by
  rw [owner, Scope.ownerDepth?_eq_none h]

theorem owner_of_owned (h : Scope.Owned name b m.scopes inner s outer) :
    m.owner name = .scope outer.length := by
  rw [owner, h.ownerDepth?_eq]

theorem lookup_of_unbound (h : ∀ t ∈ m.scopes, t.get? name = none) :
    m.lookup name = m.globals.get? name := by
  rw [lookup, Scope.lookup_eq_none h]

theorem lookup_of_owned (h : Scope.Owned name b m.scopes inner s outer) :
    m.lookup name = some b := by
  rw [lookup, h.lookup_eq]

theorem bindingAt_scope_of_unbound (h : ∀ t ∈ m.scopes, t.get? name = none) (d : Nat) :
    m.bindingAt (.scope d) name = none := by
  show (m.scopes.reverse[d]?).bind (·.get? name) = none
  cases hd : m.scopes.reverse[d]? with
  | none => rfl
  | some t => exact h t (List.mem_reverse.1 (List.mem_of_getElem? hd))

theorem bindingAt_of_owned (h : Scope.Owned name b m.scopes inner s outer) :
    m.bindingAt (.scope outer.length) name = some b := by
  show (m.scopes.reverse[outer.length]?).bind (·.get? name) = some b
  rw [h.scopes_eq, getElem?_reverse_split]
  simp [h.bound]

/-- The scopes above the owner do not bind the name. -/
theorem bindingAt_of_lt (h : Scope.Owned name b m.scopes inner s outer) {d : Nat}
    (hd : outer.length < d) : m.bindingAt (.scope d) name = none := by
  show (m.scopes.reverse[d]?).bind (·.get? name) = none
  rw [h.scopes_eq, getElem?_reverse_split, if_neg (by omega), if_neg (by omega)]
  cases ht : inner.reverse[d - outer.length - 1]? with
  | none => rfl
  | some t => exact h.unbound t (List.mem_reverse.1 (List.mem_of_getElem? ht))

theorem innermost_owner (m : Machine) (name : String) : m.Innermost name (m.owner name) := by
  rcases Scope.unbound_or_owned m.scopes name with h | ⟨b, inner, s, outer, h⟩
  · rw [owner_of_unbound h]
    exact .globals (bindingAt_scope_of_unbound h)
  · have hbound : m.bindingAt (.scope outer.length) name ≠ none := by
      rw [bindingAt_of_owned h]
      nofun
    rw [owner_of_owned h]
    exact .scope hbound fun d => bindingAt_of_lt h

theorem lookup_eq_bindingAt (m : Machine) (name : String) :
    m.lookup name = m.bindingAt (m.owner name) name := by
  rcases Scope.unbound_or_owned m.scopes name with h | ⟨b, inner, s, outer, h⟩
  · rw [lookup_of_unbound h, owner_of_unbound h]
    rfl
  · rw [lookup_of_owned h, owner_of_owned h, bindingAt_of_owned h]

/-- The owner depends on the scopes only. -/
theorem owner_congr (h : m'.scopes = m.scopes) (name : String) : m'.owner name = m.owner name := by
  rw [owner, owner, h]

theorem owner_of_lookup_none (h : Scope.lookup m.scopes name = none) : m.owner name = .globals := by
  rcases Scope.unbound_or_owned m.scopes name with hunbound | ⟨b, inner, s, outer, howned⟩
  · exact owner_of_unbound hunbound
  · rw [howned.lookup_eq] at h
    cases h

/-! ### Storing a value -/

/-- An assignment to a global variable, where no scope has the name. -/
theorem assigns_globals {old value : Value} {tag : Option Tag}
    (hunbound : ∀ t ∈ m.scopes, t.get? name = none)
    (hold : m.globals.get? name = some (.slot old tag)) :
    m.Assigns name value { m with globals := m.globals.insert name (.slot value tag) } := by
  have howner := owner_of_unbound hunbound
  have hglobals (other : String) : (m.globals.insert name (.slot value tag)).get? other =
      if name = other then some (.slot value tag) else m.globals.get? other :=
    Table.get?_insert _ _ _ _
  have hnew := (hglobals name).trans (if_pos rfl)
  refine ⟨⟨old, tag, ?_, ?_, ?_⟩, ?_, ?_, rfl, rfl⟩
  · rw [howner]
    exact hold
  · rw [howner]
    exact hnew
  · unfold lookup
    rw [Scope.lookup_eq_none hunbound]
    exact hnew
  · intro place other hne
    cases place with
    | scope d => rfl
    | globals =>
      have hother : name ≠ other := by
        rcases hne with hne | hne
        · exact absurd howner.symm hne
        · exact hne.symm
      show (m.globals.insert name (.slot value tag)).get? other = _
      rw [hglobals, if_neg hother]
      rfl
  · intro k other hne
    unfold lookup
    rw [hglobals, if_neg hne.symm]

/-- An assignment to a variable in the innermost scope that has the name. -/
theorem assigns_scope {old value : Value} {tag : Option Tag}
    (h : Scope.Owned name (.slot old tag) m.scopes inner s outer) :
    m.Assigns name value
      { m with scopes := inner ++ s.insert name (.slot value tag) :: outer } := by
  set s' := s.insert name (.slot value tag) with hs'
  have howner := owner_of_owned h
  have hget (other : String) :
      s'.get? other = if name = other then some (.slot value tag) else s.get? other :=
    Table.get?_insert _ _ _ _
  have howned : Scope.Owned name (.slot value tag) (inner ++ s' :: outer) inner s' outer :=
    ⟨rfl, h.unbound, by rw [hget, if_pos rfl]⟩
  -- away from the owner the tables are the same, and at the owner they differ in the name only
  have hothers (place : Place) (other : String) (hne : place ≠ m.owner name ∨ other ≠ name) :
      bindingAt { m with scopes := inner ++ s' :: outer } place other =
        m.bindingAt place other := by
    cases place with
    | globals => rfl
    | scope d =>
      show ((inner ++ s' :: outer).reverse[d]?).bind (·.get? other) =
        (m.scopes.reverse[d]?).bind (·.get? other)
      rw [h.scopes_eq, getElem?_reverse_split, getElem?_reverse_split]
      by_cases hd : d = outer.length
      · have hother : name ≠ other := by
          rcases hne with hne | hne
          · exact absurd (by rw [howner, hd]) hne
          · exact hne.symm
        simp [hd, hget, hother]
      · simp [hd]
  refine ⟨⟨old, tag, ?_, ?_, ?_⟩, hothers, ?_, by simp [h.scopes_eq], rfl⟩
  · rw [howner, bindingAt_of_owned h]
  · rw [howner]
    exact bindingAt_of_owned (m := { m with scopes := inner ++ s' :: outer }) howned
  · exact lookup_of_owned (m := { m with scopes := inner ++ s' :: outer }) howned
  · intro k other hne
    have hsame (scopes : List Scope) :
        List.Forall₂ (fun s s' : Scope => s'.get? other = s.get? other) scopes scopes :=
      List.forall₂_same.2 fun _ _ => rfl
    have hs : s'.get? other = s.get? other := by rw [hget, if_neg hne.symm]
    have hscopes := List.rel_append (hsame inner) (.cons hs (hsame outer))
    unfold lookup
    rw [h.scopes_eq, Scope.lookup_congr (List.forall₂_drop k hscopes)]

theorem Assigns.bindingAt_eq_none {value : Value} (h : m.Assigns name value m') {place : Place}
    {other : String} (hnone : m.bindingAt place other = none) :
    m'.bindingAt place other = none := by
  obtain ⟨old, tag, hold, -, -⟩ := h.target
  have hne : place ≠ m.owner name ∨ other ≠ name := by
    by_contra hsame
    rw [not_or, not_not, not_not] at hsame
    rw [hsame.1, hsame.2, hold] at hnone
    cases hnone
  rw [h.others place other hne, hnone]

/-- What an assignment comes to: that of the check, and the value stored if the check succeeds. -/
theorem assign_cases (m : Machine) (name : String) (value : Value) :
    (∃ fault, m.checkAssignable name = .error fault ∧ m.assign name value = .error fault) ∨
      ∃ m', m.checkAssignable name = .ok () ∧ m.assign name value = .ok m' ∧
        m.Assigns name value m' := by
  rcases Scope.unbound_or_owned m.scopes name with h | ⟨b, inner, s, outer, h⟩
  · rw [checkAssignable, assign_eq_innermost, lookup_of_unbound h,
      Scope.assignInnermost_eq_absent h]
    cases hb : m.globals.get? name with
    | none => exact .inl ⟨_, rfl, by simp [Scope.assign, hb]⟩
    | some b =>
      cases b with
      | raw v => exact .inl ⟨_, rfl, by simp [Scope.assign, hb, Binding.assign?]⟩
      | slot old tag =>
        exact .inr ⟨_, rfl, by simp [Scope.assign, hb, Binding.assign?], assigns_globals h hb⟩
  · rw [checkAssignable, assign_eq_innermost, lookup_of_owned h, h.assignInnermost_eq]
    cases b with
    | raw v => exact .inl ⟨_, rfl, rfl⟩
    | slot old tag => exact .inr ⟨_, rfl, rfl, assigns_scope h⟩

end Machine

/-! ### Runs that assign -/

section

variable {name : String} {value : Value} {line : Nat} {m m' : Machine} {fault : Fault}

theorem store_of_error (h : m.assign name value = .error fault) :
    store name value line m = .error (.error (.run line fault)) m := by
  rw [store, get_bind_apply, h]
  rfl

theorem store_of_ok (h : m.assign name value = .ok m') : store name value line m = .ok () m' := by
  rw [store, get_bind_apply, h]
  rfl

/-- A variable is set by a check, the computation of the value, and `store`. -/
theorem setVariable_apply (run : Run Value) : setVariable name run line m =
    match m.checkAssignable name with
    | .error fault => .error (.error (.run line fault)) m
    | .ok _ => (run >>= fun v => store name v line) m := by
  show (match m.checkAssignable name with
    | .error fault => fail line fault
    | .ok _ => run >>= fun v => store name v line : Run Unit) m = _
  cases m.checkAssignable name <;> rfl

end

/-- Looking a name up, checking it and assigning it have to do with the same binding, that of the
innermost scope with the name, or the global if there is none. An assignment fails exactly as the
check does, and changes nothing then. Otherwise it stores the value in this binding, whose tag
stays, and in no other, and it creates none. -/
theorem assign_owner (m : Machine) (name : String) (value : Value) (line : Nat) :
    m.Innermost name (m.owner name) ∧
    m.lookup name = m.bindingAt (m.owner name) name ∧
    (∀ fault, m.assign name value = .error fault ↔ m.checkAssignable name = .error fault) ∧
    (∀ fault, m.checkAssignable name = .error fault →
      store name value line m = .error (.error (.run line fault)) m) ∧
    (m.checkAssignable name = .ok () →
      ∃ m', m.assign name value = .ok m' ∧ store name value line m = .ok () m' ∧
        m.Assigns name value m' ∧
          ∀ place other, m.bindingAt place other = none → m'.bindingAt place other = none) := by
  refine ⟨m.innermost_owner name, m.lookup_eq_bindingAt name, ?_⟩
  rcases m.assign_cases name value with ⟨fault, hcheck, hassign⟩ | ⟨m', hcheck, hassign, hassigns⟩
  · rw [hcheck, hassign]
    refine ⟨fun other => by simp, fun other hother => ?_, nofun⟩
    cases hother
    exact store_of_error hassign
  · rw [hcheck, hassign]
    refine ⟨fun other => by simp, nofun, fun _ => ?_⟩
    exact ⟨m', rfl, store_of_ok hassign, hassigns, fun _ _ => hassigns.bindingAt_eq_none⟩

/-! ### Checked assignments -/

/-- A checked name that no scope binds is a global. -/
theorem Machine.globals_ne_none_of_check {m : Machine} {n : String}
    (hcheck : m.checkAssignable n = .ok ()) (hlocal : Scope.lookup m.scopes n = none) :
    m.globals.get? n ≠ none := by
  intro hnone
  rw [Machine.checkAssignable, Machine.lookup, hlocal, hnone] at hcheck
  cases hcheck

/-- With the same scopes, a name that they bind has the same binding in the same place. -/
theorem Machine.bindingAt_owner_congr {m m' : Machine} {n : String} (hscopes : m'.scopes = m.scopes)
    (hlocal : Scope.lookup m.scopes n ≠ none) :
    m'.bindingAt (m.owner n) n = m.bindingAt (m.owner n) n := by
  obtain ⟨b, hb⟩ := Option.ne_none_iff_exists'.1 hlocal
  rw [← lookup_eq_bindingAt, ← owner_congr hscopes, ← lookup_eq_bindingAt, lookup, lookup, hscopes,
    hb]

/-- A check that is made again after an evaluation fails only where a global is gone. -/
theorem checkAssignable_after_eval {depth : Nat} {e : Expr} {n : String} {v : Value}
    {m m' : Machine} (hcheck : m.checkAssignable n = .ok ())
    (heval : e.eval (invoke depth) m = .ok v m') :
    m'.scopes = m.scopes ∧
      m'.checkAssignable n =
        if Scope.lookup m.scopes n = none ∧ m'.globals.get? n = none then
          .error (.undeclaredVariable n)
        else .ok () := by
  have hscopes : m'.scopes = m.scopes := by
    have hkeeps := (e.eval_ignoresScopes depth).keeps m
    rwa [after_of_ok heval] at hkeeps
  have hraw : m.NoNewRaw m' := by
    have hrun := closed_noNewRaw.run ⟨.expr depth e, m⟩
    rwa [show Activation.finish ⟨.expr depth e, m⟩ = m' from after_of_ok heval] at hrun
  refine ⟨hscopes, ?_⟩
  unfold Machine.checkAssignable Machine.lookup at hcheck ⊢
  rw [hscopes]
  cases hlocal : Scope.lookup m.scopes n with
  | some b =>
    rw [hlocal] at hcheck
    cases b with
    | slot old tag => simp
    | raw w => cases hcheck
  | none =>
    rw [hlocal] at hcheck
    cases hglobal : m'.globals.get? n with
    | none => simp
    | some b =>
      cases b with
      | slot old tag => simp
      | raw w =>
        -- the global was raw already, which the first check refuses
        have hbefore : m.globals.get? n = some (.raw w) := hraw.globals n w hglobal
        rw [hbefore] at hcheck
        cases hcheck

/-- What an assignment after an evaluation comes to, once the check has succeeded. -/
theorem assign_after_eval {depth : Nat} {e : Expr} {n : String} {v : Value} {m m' : Machine}
    (hcheck : m.checkAssignable n = .ok ()) (heval : e.eval (invoke depth) m = .ok v m') :
    (Scope.lookup m.scopes n = none ∧ m'.globals.get? n = none ∧
        m'.assign n v = .error (.undeclaredVariable n)) ∨
      ¬ (Scope.lookup m.scopes n = none ∧ m'.globals.get? n = none) ∧
        ∃ m'', m'.assign n v = .ok m'' ∧ m'.Assigns n v m'' := by
  have hagain := (checkAssignable_after_eval hcheck heval).2
  by_cases hgone : Scope.lookup m.scopes n = none ∧ m'.globals.get? n = none
  · rw [if_pos hgone] at hagain
    rcases m'.assign_cases n v with ⟨fault, hfault, hassign⟩ | ⟨m'', hok, -⟩
    · cases hfault.symm.trans hagain
      exact .inl ⟨hgone.1, hgone.2, hassign⟩
    · cases hok.symm.trans hagain
  · rw [if_neg hgone] at hagain
    rcases m'.assign_cases n v with ⟨fault, hfault, -⟩ | ⟨m'', -, hassign, hassigns⟩
    · cases hfault.symm.trans hagain
    · exact .inr ⟨hgone, m'', hassign, hassigns⟩

/-- The course of a statement that assigns. -/
theorem exec_set_apply (call : Invoke) (load : Fetch) (n : String) (e : Expr) (line : Nat)
    (m : Machine) : (Stmt.set n e line).exec call load m =
      match m.checkAssignable n with
      | .error fault => .error (.error (.run line fault)) m
      | .ok _ =>
        match e.eval call m with
        | .error halt m' => .error halt m'
        | .ok v m' =>
          match m'.assign n v with
          | .error fault => .error (.error (.run line fault)) m'
          | .ok m'' => .ok .normal m'' := by
  have hset : setVariable n (e.eval call) line m = _ := setVariable_apply (e.eval call)
  rw [Stmt.exec]
  cases hcheck : m.checkAssignable n with
  | error fault =>
    rw [hcheck] at hset
    exact bind_eq_of_error hset
  | ok u =>
    rw [hcheck] at hset
    dsimp only at hset ⊢
    cases heval : e.eval call m with
    | error halt m' =>
      rw [bind_eq_of_error heval] at hset
      exact bind_eq_of_error hset
    | ok v m' =>
      rw [bind_eq_of_ok heval] at hset
      dsimp only
      cases hassign : m'.assign n v with
      | error fault =>
        rw [store_of_error hassign] at hset
        exact bind_eq_of_error hset
      | ok m'' =>
        rw [store_of_ok hassign] at hset
        exact bind_eq_of_ok hset

/-- A statement that assigns and whose check fails evaluates nothing and changes nothing. If the
check succeeds and the value is computed, a variable in a scope always takes it, in the binding that
was checked. A global variable takes it unless the computation has removed the global, and only then
the assignment fails, because the name is undeclared. -/
theorem set_checked (depth : Nat) (n : String) (e : Expr) (line : Nat) (m : Machine) :
    let run : Run Flow := (Stmt.set n e line).exec (invoke depth) (fetch depth)
    (∀ fault, m.checkAssignable n = .error fault →
      run m = .error (.error (.run line fault)) m ∧
        ∀ b, ¬ Activation.Calls ⟨.stmt depth (.set n e line), m⟩ b) ∧
    (m.checkAssignable n = .ok () →
      (∀ halt m', e.eval (invoke depth) m = .error halt m' → run m = .error halt m') ∧
      ∀ v m', e.eval (invoke depth) m = .ok v m' →
        m'.assign n v ≠ .error (.invalidVariable n) ∧
        (Scope.lookup m.scopes n ≠ none →
          m'.owner n = m.owner n ∧ m'.bindingAt (m.owner n) n = m.bindingAt (m.owner n) n ∧
            ∃ m'', run m = .ok .normal m'' ∧ m'.Assigns n v m'') ∧
        (Scope.lookup m.scopes n = none →
          m.globals.get? n ≠ none ∧
          (m'.globals.get? n ≠ none →
            m'.owner n = .globals ∧ ∃ m'', run m = .ok .normal m'' ∧ m'.Assigns n v m'') ∧
          (m'.globals.get? n = none →
            run m = .error (.error (.run line (.undeclaredVariable n))) m'))) := by
  intro run
  have hrun : run m = _ := exec_set_apply (invoke depth) (fetch depth) n e line m
  refine ⟨fun fault hcheck => ⟨?_, ?_⟩, fun hcheck => ⟨fun halt m' heval => ?_, ?_⟩⟩
  · rw [hrun, hcheck]
  · rintro b ⟨⟩
    next hok => cases hcheck.symm.trans hok
  · rw [hrun, hcheck, heval]
  intro v m' heval
  have hscopes := (checkAssignable_after_eval hcheck heval).1
  have howner : m'.owner n = m.owner n := Machine.owner_congr hscopes n
  have hglobal := Machine.globals_ne_none_of_check hcheck
  have hlate : run m = match m'.assign n v with
      | .error fault => .error (.error (.run line fault)) m'
      | .ok m'' => .ok .normal m'' := by
    rw [hrun, hcheck, heval]
  rcases assign_after_eval hcheck heval with ⟨hlocal, hgone, hassign⟩ | ⟨hthere, m'', hassign, hm''⟩
  · rw [hassign] at hlate ⊢
    refine ⟨nofun, fun h => absurd hlocal h, fun _ => ⟨hglobal hlocal, ?_, fun _ => hlate⟩⟩
    exact fun h => absurd hgone h
  · rw [hassign] at hlate ⊢
    refine ⟨nofun, fun hlocal => ?_, fun hlocal => ⟨hglobal hlocal, fun _ => ?_, fun hgone => ?_⟩⟩
    · exact ⟨howner, Machine.bindingAt_owner_congr hscopes hlocal, m'', hlate, hm''⟩
    · exact ⟨howner.trans (Machine.owner_of_lookup_none hlocal), m'', hlate, hm''⟩
    · exact absurd ⟨hlocal, hgone⟩ hthere

/-- The value of an assignment deletes its own target. -/
theorem set_checked_deleted :
    let e : Expr := .call "sys_delete" [.literal (.text "x") 2] 2
    let m : Machine :=
      { globals := Table.empty.insert "x" (.slot .null none)
        functions := Table.empty.insert "sys_delete" (.builtin .delete) }
    m.checkAssignable "x" = .ok () ∧
      (Stmt.set "x" e 2).exec (invoke 0) (fetch 0) m =
        .error (.error (.run 2 (.undeclaredVariable "x"))) { m with globals := Table.empty } := by
  intro e m
  have heval : e.eval (invoke 0) m = .ok .null { m with globals := Table.empty } := rfl
  obtain ⟨-, hchecked⟩ := set_checked 0 "x" e 2 m
  obtain ⟨-, -, hglobal⟩ := (hchecked rfl).2 _ _ heval
  exact ⟨rfl, (hglobal rfl).2.2 rfl⟩

end TagScript
