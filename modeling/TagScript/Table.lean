/-!
# Tables

A finite map from names to values, kept in the order of the names. `get?_insert` and `get?_erase`
say all that reading shows of a change, and `ext_get?` that reading shows all of a table.
-/

namespace TagScript

/-- Entries in the order of their names, with each name once. -/
def InOrder {α : Type} (entries : List (String × α)) : Prop :=
  entries.Pairwise fun a b => a.1 < b.1

structure Table (α : Type) where
  entries : List (String × α)
  inOrder : InOrder entries

namespace Table

variable {α β : Type}

def empty : Table α :=
  ⟨[], .nil⟩

instance : EmptyCollection (Table α) :=
  ⟨empty⟩

instance : Inhabited (Table α) :=
  ⟨empty⟩

/-- The value at a name among entries. -/
def find? (name : String) : List (String × α) → Option α
  | [] => none
  | (key, value) :: rest => if key = name then some value else find? name rest

/-- Entries with a name set to a value: in place if the name is there, else before the first larger
name. -/
def put (name : String) (value : α) : List (String × α) → List (String × α)
  | [] => [(name, value)]
  | (key, old) :: rest =>
    if key = name then (name, value) :: rest
    else if name < key then (name, value) :: (key, old) :: rest
    else (key, old) :: put name value rest

theorem lt_of_not_lt_of_ne {a b : String} (h : ¬ b < a) (hne : a ≠ b) : a < b := by
  refine Decidable.byContradiction fun h' => hne ?_
  exact String.le_antisymm (String.not_lt.1 h) (String.not_lt.1 h')

theorem mem_put {name : String} {value : α} {entries : List (String × α)} {entry : String × α}
    (h : entry ∈ put name value entries) : entry.1 = name ∨ entry ∈ entries := by
  induction entries with
  | nil =>
    rw [List.mem_singleton.1 h]
    exact .inl rfl
  | cons first rest ih =>
    obtain ⟨key, old⟩ := first
    unfold put at h
    split at h
    · rcases List.mem_cons.1 h with rfl | h
      · exact .inl rfl
      · exact .inr (List.mem_cons_of_mem _ h)
    · split at h
      · rcases List.mem_cons.1 h with rfl | h
        · exact .inl rfl
        · exact .inr h
      · rcases List.mem_cons.1 h with rfl | h
        · exact .inr (List.mem_cons_self ..)
        · exact (ih h).imp_right (List.mem_cons_of_mem _)

theorem inOrder_put (name : String) (value : α) {entries : List (String × α)}
    (h : InOrder entries) : InOrder (put name value entries) := by
  induction entries with
  | nil => exact List.pairwise_singleton ..
  | cons first rest ih =>
    obtain ⟨key, old⟩ := first
    obtain ⟨hfirst, hrest⟩ := List.pairwise_cons.1 h
    unfold put
    split
    · next heq =>
      subst heq
      exact List.pairwise_cons.2 ⟨hfirst, hrest⟩
    · next hne =>
      split
      · next hlt =>
        refine List.pairwise_cons.2 ⟨fun entry hentry => ?_, h⟩
        rcases List.mem_cons.1 hentry with rfl | hentry
        · exact hlt
        · exact String.lt_trans hlt (hfirst entry hentry)
      · next hnlt =>
        refine List.pairwise_cons.2 ⟨fun entry hentry => ?_, ih hrest⟩
        rcases mem_put hentry with heq | hentry
        · exact heq ▸ lt_of_not_lt_of_ne hnlt hne
        · exact hfirst entry hentry

def get? (t : Table α) (name : String) : Option α :=
  find? name t.entries

def insert (t : Table α) (name : String) (value : α) : Table α :=
  ⟨put name value t.entries, inOrder_put name value t.inOrder⟩

def erase (t : Table α) (name : String) : Table α :=
  ⟨t.entries.filter (·.1 ≠ name), t.inOrder.filter _⟩

def contains (t : Table α) (name : String) : Bool :=
  (t.get? name).isSome

def size (t : Table α) : Nat :=
  t.entries.length

/-- The entries of a list of pairs; of two with one name the later counts. -/
def ofList (entries : List (String × α)) : Table α :=
  entries.foldl (fun t (name, value) => t.insert name value) empty

theorem find?_put (name other : String) (value : α) (entries : List (String × α)) :
    find? other (put name value entries) =
      if name = other then some value else find? other entries := by
  induction entries with
  | nil => rfl
  | cons entry rest ih =>
    obtain ⟨key, old⟩ := entry
    unfold put
    by_cases hk : key = name
    · subst hk
      by_cases ho : key = other <;> simp [find?, ho]
    · by_cases hl : name < key
      · simp [hk, hl, find?]
      · by_cases ho : key = other
        · subst ho
          simp [hk, hl, find?, Ne.symm hk]
        · simp [hk, hl, find?, ho, ih]

theorem find?_filter_ne (name other : String) (entries : List (String × α)) :
    find? other (entries.filter (·.1 ≠ name)) =
      if name = other then none else find? other entries := by
  induction entries with
  | nil => simp [find?]
  | cons entry rest ih =>
    obtain ⟨key, value⟩ := entry
    by_cases hk : key = name
    · subst hk
      by_cases ho : key = other <;> simp_all [find?]
    · by_cases ho : key = other
      · subst ho
        simp [hk, find?, Ne.symm hk]
      · simpa [hk, find?, ho] using ih

@[simp] theorem get?_empty (name : String) : (empty : Table α).get? name = none := rfl

theorem get?_insert (t : Table α) (name other : String) (value : α) :
    (t.insert name value).get? other = if name = other then some value else t.get? other :=
  find?_put name other value t.entries

theorem get?_erase (t : Table α) (name other : String) :
    (t.erase name).get? other = if name = other then none else t.get? other :=
  find?_filter_ne name other t.entries

theorem find?_eq_none {name : String} {entries : List (String × α)}
    (h : ∀ entry ∈ entries, name < entry.1) : find? name entries = none := by
  induction entries with
  | nil => rfl
  | cons first rest ih =>
    have hne : first.1 ≠ name := by
      rintro rfl
      exact String.lt_irrefl _ (h first (List.mem_cons_self ..))
    rw [find?, if_neg hne]
    exact ih fun entry hentry => h entry (List.mem_cons_of_mem _ hentry)

/-- A table whose first name is before all names of another holds a name that the other does not. -/
theorem not_lt_of_find?_eq {k k' : String} {v v' : α} {rest rest' : List (String × α)}
    (h' : InOrder ((k', v') :: rest'))
    (heq : find? k ((k, v) :: rest) = find? k ((k', v') :: rest')) : ¬ k < k' := by
  intro hlt
  have hnone : find? k ((k', v') :: rest') = none := by
    refine find?_eq_none fun entry hentry => ?_
    rcases List.mem_cons.1 hentry with rfl | hentry
    · exact hlt
    · exact String.lt_trans hlt ((List.pairwise_cons.1 h').1 entry hentry)
  rw [hnone, find?, if_pos rfl] at heq
  cases heq

theorem eq_of_find?_eq {entries entries' : List (String × α)} (h : InOrder entries)
    (h' : InOrder entries') (heq : ∀ name, find? name entries = find? name entries') :
    entries = entries' := by
  induction entries generalizing entries' with
  | nil =>
    cases entries' with
    | nil => rfl
    | cons first rest =>
      have := heq first.1
      rw [find?, find?, if_pos rfl] at this
      cases this
  | cons first rest ih =>
    cases entries' with
    | nil =>
      have := heq first.1
      rw [find?, find?, if_pos rfl] at this
      cases this
    | cons first' rest' =>
      obtain ⟨k, v⟩ := first
      obtain ⟨k', v'⟩ := first'
      obtain ⟨hfirst, hrest⟩ := List.pairwise_cons.1 h
      obtain ⟨hfirst', hrest'⟩ := List.pairwise_cons.1 h'
      have hk : k = k' := by
        refine Decidable.byContradiction fun hne => ?_
        exact not_lt_of_find?_eq h' (heq k)
          (lt_of_not_lt_of_ne (not_lt_of_find?_eq h (heq k').symm) hne)
      subst hk
      have hv := heq k
      rw [find?, find?, if_pos rfl, if_pos rfl] at hv
      cases hv
      -- below the first name both hold the same; the first name itself is in neither rest
      rw [ih hrest hrest' fun name => ?_]
      by_cases hname : k = name
      · subst hname
        rw [find?_eq_none hfirst, find?_eq_none hfirst']
      · have := heq name
        rwa [find?, find?, if_neg hname, if_neg hname] at this

theorem ext_get? {s t : Table α} (h : ∀ name, s.get? name = t.get? name) : s = t := by
  obtain ⟨entries, inOrder⟩ := s
  obtain ⟨entries', inOrder'⟩ := t
  obtain rfl := eq_of_find?_eq inOrder inOrder' h
  rfl

end Table

end TagScript
