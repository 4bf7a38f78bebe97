import TagScript.Program.Parsed

/-!
# What readers give

`Parsed.Gives p node rest`: a reader succeeded with `node` and left `rest`. The lemmas follow a
success through `bind`, `map` and the readers of single tokens, and through `readItems` for any item
whose reader is tied to a grammar `Q`: what is read in parentheses is `Separated Q`, a spelling of
each item with a comma between each two.
-/

namespace TagScript

/-! ### Tokens at the ends of a list -/

def firstToken? (ts : List Lexeme) : Option Token :=
  ts.head?.map Lexeme.token

def lastToken? (ts : List Lexeme) : Option Token :=
  ts.getLast?.map Lexeme.token

@[simp] theorem firstToken?_nil : firstToken? [] = none := rfl

@[simp] theorem firstToken?_cons (l : Lexeme) (ts : List Lexeme) :
    firstToken? (l :: ts) = some l.token := rfl

theorem firstToken?_append {w : List Lexeme} (hw : w ≠ []) (ts : List Lexeme) :
    firstToken? (w ++ ts) = firstToken? w := by
  cases w with
  | nil => exact absurd rfl hw
  | cons l w => rfl

theorem firstToken?_ne_of_not_cons {ts : List Lexeme} {t : Token}
    (h : ∀ line index rest, ts = ⟨t, line, index⟩ :: rest → False) : firstToken? ts ≠ some t := by
  rcases ts with _ | ⟨⟨t', line, index⟩, rest⟩
  · simp
  · intro ht
    cases ht
    exact h line index rest rfl

@[simp] theorem lastToken?_singleton (l : Lexeme) : lastToken? [l] = some l.token := rfl

theorem lastToken?_append {ts : List Lexeme} (h : ts ≠ []) (w : List Lexeme) :
    lastToken? (w ++ ts) = lastToken? ts := by
  cases h' : ts.getLast? with
  | none => exact absurd (List.getLast?_eq_none_iff.1 h') h
  | some l => simp [lastToken?, h']

/-! ### Success -/

namespace Parsed

variable {α β : Type} {m n : Nat} {a : α} {b : β} {rest mid : List Lexeme}

/-- The reader gives `node` and leaves `rest`. -/
def Gives (p : Parsed α n) (node : α) (rest : List Lexeme) : Prop :=
  ∃ fewer, p = ok node rest fewer

theorem Gives.fewer {p : Parsed α n} (h : p.Gives a rest) : rest.length < n :=
  h.1

theorem gives_ok {a' : α} {fewer : mid.length < n} :
    (ok a' mid fewer : Parsed α n).Gives a rest ↔ a' = a ∧ mid = rest := by
  constructor
  · rintro ⟨_, h⟩
    injection h with h1 h2
    exact ⟨h1, h2⟩
  · rintro ⟨rfl, rfl⟩
    exact ⟨fewer, rfl⟩

theorem not_gives_error {cause : ParseError} : ¬ (error cause mid : Parsed α n).Gives a rest := by
  rintro ⟨_, h⟩
  cases h

/-- A success of two stages is a success of the first, and of the second on what that left. -/
theorem gives_bind {p : Parsed α m}
    {f : (node : α) → (rest : List Lexeme) → rest.length < m → Parsed β n} :
    (p.bind f).Gives b rest ↔
      ∃ a mid, ∃ h : p.Gives a mid, (f a mid h.fewer).Gives b rest := by
  cases p with
  | ok a mid fewer =>
    constructor
    · exact fun h => ⟨a, mid, ⟨fewer, rfl⟩, h⟩
    · rintro ⟨a', mid', h, hf⟩
      obtain ⟨rfl, rfl⟩ := gives_ok.1 h
      exact hf
  | error cause mid =>
    constructor
    · exact fun h => absurd h not_gives_error
    · rintro ⟨_, _, h, _⟩
      exact absurd h not_gives_error

theorem gives_map {f : α → β} {p : Parsed α m} {h : m ≤ n} :
    (p.map f h).Gives b rest ↔ ∃ a, p.Gives a rest ∧ f a = b := by
  rw [map, gives_bind]
  constructor
  · rintro ⟨a, mid, ha, hf⟩
    obtain ⟨rfl, rfl⟩ := gives_ok.1 hf
    exact ⟨a, ha, rfl⟩
  · rintro ⟨a, ha, rfl⟩
    exact ⟨a, rest, ha, gives_ok.2 ⟨rfl, rfl⟩⟩

theorem Gives.bind {p : Parsed α m}
    {f : (node : α) → (rest : List Lexeme) → rest.length < m → Parsed β n}
    (h : p.Gives a mid) (hf : (f a mid h.fewer).Gives b rest) : (p.bind f).Gives b rest :=
  gives_bind.2 ⟨a, mid, h, hf⟩

theorem Gives.map {p : Parsed α m} (f : α → β) {hle : m ≤ n} (h : p.Gives a rest) :
    (p.map f hle).Gives (f a) rest :=
  gives_map.2 ⟨a, h, rfl⟩

end Parsed

/-! ### Single tokens -/

section Take

variable {α : Type} {expected : Expectation} {ts rest : List Lexeme}

theorem take_gives_iff {accept : Token → Option α} {a : α} :
    (take accept expected ts).Gives a rest ↔ ∃ l, ts = l :: rest ∧ accept l.token = some a := by
  cases ts with
  | nil => exact ⟨fun h => absurd h Parsed.not_gives_error, by rintro ⟨_, h, _⟩; cases h⟩
  | cons l tail =>
    rw [take]
    split
    · next b hb =>
      rw [Parsed.gives_ok]
      constructor
      · rintro ⟨rfl, rfl⟩
        exact ⟨l, rfl, hb⟩
      · rintro ⟨l', h, ha⟩
        obtain ⟨rfl, rfl⟩ := List.cons.inj h
        exact ⟨Option.some.inj (hb.symm.trans ha), rfl⟩
    · next hn =>
      refine ⟨fun h => absurd h Parsed.not_gives_error, ?_⟩
      rintro ⟨l', h, ha⟩
      obtain ⟨rfl, rfl⟩ := List.cons.inj h
      rw [hn] at ha
      cases ha

theorem expect_gives_iff {token : Token} {u : Unit} :
    (expect token expected ts).Gives u rest ↔ ∃ l, ts = l :: rest ∧ l.token = token := by
  rw [expect, take_gives_iff]
  simp

/-- A reader that takes the tokens `form a`, and gives `a` for each. -/
theorem take_gives_iff_eq {accept : Token → Option α} {form : α → Token} {a : α}
    (h : ∀ t, accept t = some a ↔ t = form a) :
    (take accept expected ts).Gives a rest ↔ ∃ l, ts = l :: rest ∧ l.token = form a := by
  simp only [take_gives_iff, h]

theorem takeName_gives_iff {name : String} :
    (takeName expected ts).Gives name rest ↔ ∃ l, ts = l :: rest ∧ l.token = .identifier name :=
  take_gives_iff_eq fun t => by cases t <;> simp

theorem takeType_gives_iff {type : TypeWord} :
    (takeType expected ts).Gives type rest ↔ ∃ l, ts = l :: rest ∧ l.token = .type type :=
  take_gives_iff_eq fun t => by cases t <;> simp

theorem takeText_gives_iff {content : String} :
    (takeText expected ts).Gives content rest ↔ ∃ l, ts = l :: rest ∧ l.token = .text content :=
  take_gives_iff_eq fun t => by cases t <;> simp

end Take

/-! ### Lists in parentheses -/

/-- `w` spells the items of a list by `Q`, with a comma between each two. -/
inductive Separated {α : Type} (Q : α → List Lexeme → Prop) : List α → List Lexeme → Prop
  | nil : Separated Q [] []
  | one {a : α} {w : List Lexeme} : Q a w → Separated Q [a] w
  | cons {a b : α} {as : List α} {w ws : List Lexeme} {comma : Lexeme} :
    Q a w → comma.token = .mark .comma → Separated Q (b :: as) ws →
      Separated Q (a :: b :: as) (w ++ comma :: ws)

section Items

variable {α : Type} {Q : α → List Lexeme → Prop} {expected : Expectation}

theorem Separated.cons_of_ne_nil {a : α} {as : List α} {w ws : List Lexeme} {comma : Lexeme}
    (ha : Q a w) (hc : comma.token = .mark .comma) (has : Separated Q as ws) (hne : as ≠ []) :
    Separated Q (a :: as) (w ++ comma :: ws) := by
  cases as with
  | nil => exact absurd rfl hne
  | cons b as => exact .cons ha hc has

theorem readItems_sound (ts : List Lexeme)
    (item : (us : List Lexeme) → us.length ≤ ts.length → Parsed α us.length)
    (hitem : ∀ us h a r, (item us h).Gives a r → ∃ w, us = w ++ r ∧ Q a w)
    {as : List α} {rest : List Lexeme} (h : (readItems expected ts item).Gives as rest) :
    ∃ w c, ts = w ++ c :: rest ∧ c.token = .mark .closeParen ∧ Separated Q as w ∧ as ≠ [] := by
  rw [readItems, Parsed.gives_bind] at h
  obtain ⟨first, mid, hfirst, h⟩ := h
  have hfewer := hfirst.fewer
  obtain ⟨w, hts, hw⟩ := hitem _ _ _ _ hfirst
  match mid with
  | [] => exact absurd h Parsed.not_gives_error
  | l :: rest' =>
    simp only at h
    split at h
    · next hcomma =>
      obtain ⟨more, hmore, rfl⟩ := Parsed.gives_map.1 h
      obtain ⟨ws, c, rfl, hc, hws, hne⟩ := readItems_sound rest' _ (fun us _ => hitem us _) hmore
      exact ⟨w ++ l :: ws, c, by simp [hts], hc, .cons_of_ne_nil hw hcomma hws hne, by simp⟩
    · next hclose =>
      obtain ⟨rfl, rfl⟩ := Parsed.gives_ok.1 h
      exact ⟨w, l, hts, hclose, .one hw, by simp⟩
    · exact absurd h Parsed.not_gives_error
termination_by ts.length
decreasing_by simp at hfewer; omega

theorem readList_sound {ts : List Lexeme}
    {item : (us : List Lexeme) → us.length ≤ ts.length → Parsed α us.length}
    (hitem : ∀ us h a r, (item us h).Gives a r → ∃ w, us = w ++ r ∧ Q a w)
    {as : List α} {rest : List Lexeme} (h : (readList expected ts item).Gives as rest) :
    ∃ w c, ts = w ++ c :: rest ∧ c.token = .mark .closeParen ∧ Separated Q as w := by
  unfold readList at h
  split at h
  · obtain ⟨rfl, rfl⟩ := Parsed.gives_ok.1 h
    exact ⟨[], _, rfl, rfl, .nil⟩
  · obtain ⟨w, c, hts, hc, hw, -⟩ := readItems_sound _ _ hitem h
    exact ⟨w, c, hts, hc, hw⟩

/-- The reader reads `w` as `a` wherever a list goes on or ends after it. -/
def ReadsItem (item : (us : List Lexeme) → Parsed α us.length) (a : α) (w : List Lexeme) : Prop :=
  ∀ l rest, l.token = .mark .comma ∨ l.token = .mark .closeParen →
    (item (w ++ l :: rest)).Gives a (l :: rest)

variable {item : (us : List Lexeme) → Parsed α us.length}

theorem readItems_complete {as : List α} {w rest : List Lexeme} {c : Lexeme}
    (hc : c.token = .mark .closeParen) (h : Separated (ReadsItem item) as w) (hne : as ≠ []) :
    (readItems expected (w ++ c :: rest) fun us _ => item us).Gives as rest := by
  induction h with
  | nil => exact absurd rfl hne
  | one ha =>
    rw [readItems]
    refine (ha c rest (.inr hc)).bind ?_
    simp only [hc]
    exact Parsed.gives_ok.2 ⟨rfl, rfl⟩
  | @cons a b as w ws comma ha hcomma _ ih =>
    rw [List.append_assoc, List.cons_append, readItems]
    refine (ha comma (ws ++ c :: rest) (.inl hcomma)).bind ?_
    simp only [hcomma]
    exact (ih (by simp)).map (a :: ·)

theorem readList_eq_readItems {ts : List Lexeme}
    {item : (us : List Lexeme) → us.length ≤ ts.length → Parsed α us.length}
    (h : firstToken? ts ≠ some (.mark .closeParen)) :
    readList expected ts item = readItems expected ts item := by
  unfold readList
  split
  · exact absurd rfl h
  · rfl

theorem readList_complete (hclose : ∀ ts a r, firstToken? ts = some (.mark .closeParen) →
      ¬ (item ts).Gives a r)
    {as : List α} {w rest : List Lexeme} {c : Lexeme} (hc : c.token = .mark .closeParen)
    (h : Separated (ReadsItem item) as w) :
    (readList expected (w ++ c :: rest) fun us _ => item us).Gives as rest := by
  cases h with
  | nil =>
    obtain ⟨_, line, index⟩ := c
    cases hc
    exact Parsed.gives_ok.2 ⟨rfl, rfl⟩
  | one ha =>
    rw [readList_eq_readItems fun h => hclose _ _ _ h (ha c rest (.inr hc))]
    exact readItems_complete hc (.one ha) (by simp)
  | @cons _ _ _ _ ws comma ha hcomma has =>
    have hfirst := fun h => hclose _ _ _ h (ha comma (ws ++ c :: rest) (.inl hcomma))
    rw [readList_eq_readItems (by simpa using hfirst)]
    exact readItems_complete hc (.cons ha hcomma has) (by simp)

end Items

end TagScript
