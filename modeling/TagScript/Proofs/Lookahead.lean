import TagScript.Proofs.ReadExpression
import TagScript.Proofs.Relabel

/-!
# Readers look one lexeme ahead

`Settled read Q ts`: what `read` makes of `ts` is settled by the tokens it takes and the one after
them, and never by lines. It gives a node that the taken lexemes spell by `Q`, or it stops at a
lexeme, or at the end, where something else was expected, and then the lexemes before can be
completed to a spelling.

The statement goes through a sequence of stages without a word about how a spelling is completed: a
later stage that is settled on no lexemes at all can be completed from nothing (`Settled.seq`).
-/

namespace TagScript

variable {α β : Type}

/-! ### Outcomes -/

/-- A node or an error, and the lexemes that are left. -/
abbrev Outcome (α : Type) := Except ParseError α × List Lexeme

/-- A reader without the bound on what it leaves. -/
abbrev Reader (α : Type) := List Lexeme → Outcome α

namespace Outcome

/-- Goes on with the lexemes after a node. -/
def bind (o : Outcome α) (k : α → Reader β) : Outcome β :=
  match o with
  | (.ok a, rest) => k a rest
  | (.error cause, rest) => (.error cause, rest)

def map (f : α → β) (o : Outcome α) : Outcome β :=
  o.bind fun a rest => (.ok (f a), rest)

/-- Ends before the lexemes `rest`: with a node, or because something else was expected there. -/
def before (rest : List Lexeme) : Except Expectation α → Outcome α
  | .ok a => (.ok a, rest)
  | .error expected =>
    match rest with
    | [] => (.error (.unexpectedEnd expected), [])
    | l :: rest => (.error (.unexpectedToken expected l), rest)

theorem before_error_bind (rest : List Lexeme) (expected : Expectation) (k : α → Reader β) :
    (before rest (.error expected)).bind k = before rest (.error expected) := by
  cases rest <;> rfl

theorem map_before (f : α → β) (rest : List Lexeme) (o : Except Expectation α) :
    (before rest o).map f = before rest (o.map f) := by
  cases o with
  | ok a => rfl
  | error expected => exact before_error_bind rest expected _

end Outcome

namespace Parsed

variable {m n : Nat}

def outcome : Parsed α n → Outcome α
  | ok a rest _ => (.ok a, rest)
  | error cause rest => (.error cause, rest)

theorem Gives.outcome_eq {p : Parsed α n} {a : α} {rest : List Lexeme} (h : p.Gives a rest) :
    p.outcome = (.ok a, rest) := by
  obtain ⟨_, rfl⟩ := h
  rfl

theorem gives_of_outcome {p : Parsed α n} {a : α} {rest : List Lexeme}
    (h : p.outcome = (.ok a, rest)) : p.Gives a rest := by
  cases p with
  | ok a' rest' fewer =>
    cases h
    exact ⟨fewer, rfl⟩
  | error => cases h

theorem outcome_bind {p : Parsed α m}
    {f : (node : α) → (rest : List Lexeme) → rest.length < m → Parsed β n} {k : α → Reader β}
    (h : ∀ a rest fewer, (f a rest fewer).outcome = k a rest) :
    (p.bind f).outcome = p.outcome.bind k := by
  cases p with
  | ok a rest fewer => exact h a rest fewer
  | error => rfl

theorem outcome_map (f : α → β) (p : Parsed α m) (h : m ≤ n) :
    (p.map f h).outcome = p.outcome.map f :=
  outcome_bind fun _ _ _ => rfl

end Parsed

/-- A reader that is bounded by the number of lexemes, without its bound. -/
def unbounded (read : (us : List Lexeme) → (n : Nat) → us.length < n → Parsed α n) : Reader α :=
  fun us => (read us (us.length + 1) (Nat.lt_succ_self _)).outcome

/-! ### Lines -/

/-- Nodes whose lines can be changed. -/
class Lined (α : Type) where
  reline : (Nat → Nat) → α → α
  reline_id : ∀ a, reline id a = a

export Lined (reline)

instance : Lined Unit := ⟨fun _ u => u, fun _ => rfl⟩

instance : Lined String := ⟨fun _ s => s, fun _ => rfl⟩

instance : Lined TypeWord := ⟨fun _ t => t, fun _ => rfl⟩

instance : Lined Param := ⟨fun _ p => p, fun _ => rfl⟩

instance : Lined Expr := ⟨fun φ e => e.relabel (.lines φ), Expr.relabel_id⟩

instance : Lined Block := ⟨fun φ b => b.relabel (.lines φ), Block.relabel_id⟩

instance : Lined Stmt := ⟨fun φ s => s.relabel (.lines φ), Stmt.relabel_id⟩

instance [Lined α] : Lined (List α) where
  reline φ := List.map (reline φ)
  reline_id as := (List.map_congr_left fun a _ => Lined.reline_id a).trans (List.map_id as)

theorem relabelAll_eq_reline (φ : Nat → Nat) (es : List Expr) :
    Expr.relabelAll (.lines φ) es = reline φ es := by
  induction es with
  | nil => rfl
  | cons e rest ih =>
    rw [Expr.relabelAll, ih]
    rfl

theorem Stmt.relabelAll_eq_reline (φ : Nat → Nat) (ss : List Stmt) :
    Stmt.relabelAll (.lines φ) ss = reline φ ss := by
  induction ss with
  | nil => rfl
  | cons s rest ih =>
    rw [Stmt.relabelAll, ih]
    rfl

theorem firstToken?_reline_append {rest rest' : List Lexeme}
    (h : firstToken? rest' = firstToken? rest) (φ : Nat → Nat) (w : List Lexeme) :
    firstToken? (relineAll φ w ++ rest') = firstToken? (w ++ rest) := by
  cases w with
  | nil => exact h
  | cons l w => rfl

/-! ### Settled readings -/

/-- The lexemes can be completed to a spelling. -/
def Viable (Q : α → List Lexeme → Prop) (w : List Lexeme) : Prop :=
  ∃ v a, Q a (w ++ v)

/-- What is known of the lexemes that were taken: they spell the node, or can be completed. -/
def Fits (Q : α → List Lexeme → Prop) : Except Expectation α → List Lexeme → Prop
  | .ok a, w => Q a w
  | .error _, w => Viable Q w

/-- `read` takes some lexemes `w` off `ts`, and on any list that starts with their tokens and the
one after them it does the same, up to the lines. It may itself hold nodes read before, so it is
given for every change of lines. -/
def Settled [Lined α] (read : (Nat → Nat) → Reader α) (Q : α → List Lexeme → Prop)
    (ts : List Lexeme) : Prop :=
  ∃ o w rest, ts = w ++ rest ∧
    (∀ φ rest', firstToken? rest' = firstToken? rest →
      read φ (relineAll φ w ++ rest') = Outcome.before rest' (o.map (reline φ))) ∧
    Fits Q o w

/-- `w` spells one thing and then another. -/
def Then (P : α → List Lexeme → Prop) (Q : α → List Lexeme → β → List Lexeme → Prop) (b : β)
    (w : List Lexeme) : Prop :=
  ∃ a u v, w = u ++ v ∧ P a u ∧ Q a u b v

namespace Fits

variable {P Q : α → List Lexeme → Prop} {o : Except Expectation α} {w : List Lexeme}

theorem viable (h : Fits Q o w) : Viable Q w := by
  cases o with
  | ok a => exact ⟨[], a, by rwa [List.append_nil]⟩
  | error => exact h

end Fits

namespace Settled

variable [Lined α] [Lined β] {read : (Nat → Nat) → Reader α} {P Q : α → List Lexeme → Prop}
  {ts : List Lexeme}

/-- A node is given and nothing taken. -/
theorem done (a : α)
    (h : ∀ φ us, firstToken? us = firstToken? ts → read φ us = (.ok (reline φ a), us))
    (ha : Q a []) : Settled read Q ts :=
  ⟨.ok a, [], ts, rfl, h, ha⟩

/-- The reader stops at once. -/
theorem stop (expected : Expectation)
    (h : ∀ φ us, firstToken? us = firstToken? ts → read φ us = Outcome.before us (.error expected))
    (hviable : Viable Q []) : Settled read Q ts :=
  ⟨.error expected, [], ts, rfl, h, hviable⟩

/-- What a reader is settled on where there is nothing to read can be completed from nothing. -/
theorem viable_nil (h : Settled read Q []) : Viable Q [] := by
  obtain ⟨o, w, rest, hts, -, hfits⟩ := h
  obtain ⟨rfl, rfl⟩ := List.append_eq_nil_iff.1 hts.symm
  exact hfits.viable

/-- Readers that agree on all lists with the same first token. -/
theorem congr {read' : (Nat → Nat) → Reader α} (h : Settled read Q ts)
    (heq : ∀ φ us, firstToken? us = firstToken? ts → read' φ us = read φ us) :
    Settled read' Q ts := by
  obtain ⟨o, w, rest, rfl, hstable, hfits⟩ := h
  refine ⟨o, w, rest, rfl, fun φ rest' hrest => ?_, hfits⟩
  rw [heq φ _ (firstToken?_reline_append hrest φ w), hstable φ rest' hrest]

/-- A reader that takes `u` first. -/
theorem prepend {R : α → List Lexeme → Prop} {read' : (Nat → Nat) → Reader α} (u : List Lexeme)
    (h : Settled read Q ts) (heq : ∀ φ us, read' φ (relineAll φ u ++ us) = read φ us)
    (hR : ∀ a w, Q a w → R a (u ++ w)) : Settled read' R (u ++ ts) := by
  obtain ⟨o, w, rest, rfl, hstable, hfits⟩ := h
  refine ⟨o, u ++ w, rest, (List.append_assoc ..).symm, fun φ rest' hrest => ?_, ?_⟩
  · rw [relineAll_append, List.append_assoc, heq, hstable φ rest' hrest]
  · cases o with
    | ok a => exact hR a w hfits
    | error =>
      obtain ⟨v, a, ha⟩ := hfits
      exact ⟨v, a, by simpa using hR a _ ha⟩

/-- A reader that makes a `β` of each `α`. -/
theorem map {R : β → List Lexeme → Prop} {f : α → β} {g : (Nat → Nat) → α → β}
    (h : Settled read Q ts) (hg : ∀ φ a, reline φ (f a) = g φ (reline φ a))
    (hR : ∀ a w, Q a w → R (f a) w) : Settled (fun φ us => (read φ us).map (g φ)) R ts := by
  obtain ⟨o, w, rest, rfl, hstable, hfits⟩ := h
  refine ⟨o.map f, w, rest, rfl, fun φ rest' hrest => ?_, ?_⟩
  · dsimp only
    rw [hstable φ rest' hrest, Outcome.map_before]
    cases o with
    | ok a => exact congrArg _ (congrArg Except.ok (hg φ a).symm)
    | error => rfl
  · cases o with
    | ok a => exact hR a w hfits
    | error =>
      obtain ⟨v, a, ha⟩ := hfits
      exact ⟨v, f a, hR a _ ha⟩

/-- A reader that takes `u` first and then reads an `α`, of which it makes a `β`. -/
theorem after {R : β → List Lexeme → Prop} {read' : (Nat → Nat) → Reader β} (u : List Lexeme)
    {f : α → β} {g : (Nat → Nat) → α → β} (h : Settled read Q ts)
    (hg : ∀ φ a, reline φ (f a) = g φ (reline φ a))
    (heq : ∀ φ us, read' φ (relineAll φ u ++ us) = (read φ us).map (g φ))
    (hR : ∀ a w, Q a w → R (f a) (u ++ w)) : Settled read' R (u ++ ts) :=
  (h.map (R := fun b w => R b (u ++ w)) hg hR).prepend u heq fun _ _ hw => hw

theorem imp (h : Settled read P ts) (hPQ : ∀ a w, P a w → Q a w) : Settled read Q ts := by
  obtain ⟨o, w, rest, rfl, hstable, hfits⟩ := h
  refine ⟨o, w, rest, rfl, hstable, ?_⟩
  cases o with
  | ok a => exact hPQ a w hfits
  | error =>
    obtain ⟨v, a, ha⟩ := hfits
    exact ⟨v, a, hPQ a _ ha⟩

/-- Only spellings count that start as the lexemes do. -/
theorem restrict (h : Settled read P ts)
    (hPQ : ∀ a w, P a w → w = [] ∨ firstToken? w = firstToken? ts → Q a w)
    (hviable : Viable Q []) : Settled read Q ts := by
  obtain ⟨o, w, rest, rfl, hstable, hfits⟩ := h
  refine ⟨o, w, rest, rfl, hstable, ?_⟩
  cases w with
  | nil =>
    cases o with
    | ok a => exact hPQ a [] hfits (.inl rfl)
    | error => exact hviable
  | cons l w =>
    cases o with
    | ok a => exact hPQ a _ hfits (.inr rfl)
    | error =>
      obtain ⟨v, a, ha⟩ := hfits
      exact ⟨v, a, hPQ a _ ha (.inr rfl)⟩

/-- Two stages, the second of which may depend on what the first has read and taken. -/
theorem bind {R : α → List Lexeme → β → List Lexeme → Prop} {k : (Nat → Nat) → α → Reader β}
    (h : Settled read Q ts)
    (hnext : ∀ a u mid, ts = u ++ mid → read id ts = (.ok a, mid) → Q a u →
      Settled (fun φ => k φ (reline φ a)) (R a u) mid)
    (hviable : ∀ a u, Q a u → Viable (R a u) []) :
    Settled (fun φ us => (read φ us).bind (k φ)) (Then Q R) ts := by
  obtain ⟨o, u, mid, rfl, hstable, hfits⟩ := h
  cases o with
  | error expected =>
    refine ⟨.error expected, u, mid, rfl, fun φ rest' hrest => ?_, ?_⟩
    · dsimp only
      rw [hstable φ rest' hrest]
      exact Outcome.before_error_bind rest' expected _
    · obtain ⟨v, a, ha⟩ := hfits
      obtain ⟨v', b, hb⟩ := hviable a _ ha
      exact ⟨v ++ v', b, a, u ++ v, v', (List.append_assoc ..).symm, ha, hb⟩
  | ok a =>
    have hread : read id (u ++ mid) = (.ok a, mid) := by
      have hid := hstable id mid rfl
      rw [relineAll_id] at hid
      rw [hid, Except.map, Lined.reline_id]
      rfl
    obtain ⟨o, v, rest, rfl, hstable', hfits'⟩ := hnext a u mid rfl hread hfits
    refine ⟨o, u ++ v, rest, (List.append_assoc ..).symm, fun φ rest' hrest => ?_, ?_⟩
    · dsimp only
      rw [relineAll_append, List.append_assoc, hstable φ _ (firstToken?_reline_append hrest φ v)]
      exact hstable' φ rest' hrest
    · cases o with
      | ok b => exact ⟨a, u, v, rfl, hfits, hfits'⟩
      | error =>
        obtain ⟨v', b, hb⟩ := hfits'
        exact ⟨v', b, a, u, v ++ v', List.append_assoc .., hfits, hb⟩

/-- Two stages, the second of which is settled wherever it starts. -/
theorem seq {R : α → β → List Lexeme → Prop} {k : (Nat → Nat) → α → Reader β}
    (h : Settled read Q ts)
    (hnext : ∀ a mid, mid.length ≤ ts.length →
      Settled (fun φ => k φ (reline φ a)) (R a) mid) :
    Settled (fun φ us => (read φ us).bind (k φ)) (Then Q fun a _ => R a) ts := by
  refine h.bind (fun a u mid hts _ _ => hnext a mid ?_) fun a u _ => (hnext a [] ?_).viable_nil
  · rw [hts, List.length_append]
    exact Nat.le_add_left ..
  · exact Nat.zero_le _

end Settled

/-! ### Single tokens -/

/-- `w` is the one token `form a`. -/
def IsToken (form : α → Token) (a : α) (w : List Lexeme) : Prop :=
  ∃ l, w = [l] ∧ l.token = form a

section Take

variable (expected : Expectation) (ts : List Lexeme)

/-- A reader that takes the tokens `form a`, of which there is one. -/
theorem take_settled [Lined α] {accept : Token → Option α} {form : α → Token} (a : α)
    (haccept : ∀ t a, accept t = some a ↔ t = form a) (hline : ∀ φ (a : α), reline φ a = a) :
    Settled (fun _ us => (take accept expected us).outcome) (IsToken form) ts := by
  have hviable : Viable (IsToken form) [] := ⟨[⟨form a, 0, 0⟩], a, _, rfl, rfl⟩
  cases ts with
  | nil =>
    refine .stop expected (fun _ us hus => ?_) hviable
    cases us with
    | nil => rfl
    | cons l us => cases hus
  | cons l ts =>
    cases hl : accept l.token with
    | none =>
      refine .stop expected (fun _ us hus => ?_) hviable
      cases us with
      | nil => cases hus
      | cons l' us =>
        rw [take, Option.some.inj hus, hl]
        rfl
    | some a =>
      refine ⟨.ok a, [l], ts, rfl, fun φ us _ => ?_, l, rfl, (haccept _ _).1 hl⟩
      rw [Except.map, hline]
      show (take accept expected (l.reline φ :: us)).outcome = _
      rw [take, Lexeme.token_reline, hl]
      rfl

theorem expect_settled (token : Token) :
    Settled (fun _ us => (expect token expected us).outcome) (IsToken fun _ => token) ts :=
  take_settled expected ts () (fun t _ => by simp) fun _ _ => rfl

theorem takeName_settled :
    Settled (fun _ us => (takeName expected us).outcome) (IsToken Token.identifier) ts :=
  take_settled expected ts "" (fun t _ => by cases t <;> simp) fun _ _ => rfl

theorem takeType_settled :
    Settled (fun _ us => (takeType expected us).outcome) (IsToken Token.type) ts :=
  take_settled expected ts .void (fun t _ => by cases t <;> simp) fun _ _ => rfl

theorem takeText_settled :
    Settled (fun _ us => (takeText expected us).outcome) (IsToken Token.text) ts :=
  take_settled expected ts "" (fun t _ => by cases t <;> simp) fun _ _ => rfl

end Take

/-! ### Lists in parentheses -/

section Items

/-- `w` spells items by `Q` and the parenthesis that closes their list. -/
def ClosedList (Q : α → List Lexeme → Prop) (as : List α) (w : List Lexeme) : Prop :=
  ∃ v c, w = v ++ [c] ∧ c.token = .mark .closeParen ∧ Separated Q as v

variable {Q : α → List Lexeme → Prop} {u w : List Lexeme} {a : α} {l : Lexeme}

theorem ClosedList.nil (hl : l.token = .mark .closeParen) : ClosedList Q [] [l] :=
  ⟨[], l, rfl, hl, .nil⟩

theorem ClosedList.one (ha : Q a u) (hl : l.token = .mark .closeParen) :
    ClosedList Q [a] (u ++ [l]) :=
  ⟨u, l, rfl, hl, .one ha⟩

theorem ClosedList.cons {as : List α} (ha : Q a u) (hl : l.token = .mark .comma)
    (has : ClosedList Q as w ∧ as ≠ []) : ClosedList Q (a :: as) (u ++ l :: w) := by
  obtain ⟨⟨v, c, rfl, hc, hv⟩, hne⟩ := has
  exact ⟨u ++ l :: v, c, by simp, hc, .cons_of_ne_nil ha hl hv hne⟩

variable [Lined α] (expected : Expectation) (item : (us : List Lexeme) → Parsed α us.length)

def itemsReader : Reader (List α) :=
  fun us => (readItems expected us fun us _ => item us).outcome

/-- Reads what follows an item: the end of the list, or a comma and more items. -/
def moreReader (first : α) : Reader (List α)
  | [] => Outcome.before [] (.error expected)
  | l :: rest =>
    match l.token with
    | .mark .comma => (itemsReader expected item rest).map (first :: ·)
    | .mark .closeParen => (.ok [first], rest)
    | _ => Outcome.before (l :: rest) (.error expected)

omit [Lined α] in
theorem itemsReader_eq (us : List Lexeme) :
    itemsReader expected item us = (item us).outcome.bind (moreReader expected item) := by
  rw [itemsReader, readItems]
  refine Parsed.outcome_bind fun first rest fewer => ?_
  cases rest with
  | nil => rfl
  | cons l rest =>
    obtain ⟨t, line, index⟩ := l
    cases t with
    | mark mark =>
      cases mark with
      | comma => exact Parsed.outcome_map ..
      | _ => rfl
    | _ => rfl

/-- The list after an item, given that the lists after its commas are settled. -/
theorem moreReader_settled {a : α} {u mid : List Lexeme} (ha : Q a u)
    (hitems : ∀ l us, mid = l :: us → Settled (fun _ => itemsReader expected item)
      (fun as w => ClosedList Q as w ∧ as ≠ []) us) :
    Settled (fun φ => moreReader expected item (reline φ a))
      (fun as w => ClosedList Q as (u ++ w) ∧ as ≠ []) mid := by
  have hviable : Viable (fun as w => ClosedList Q as (u ++ w) ∧ as ≠ []) [] :=
    ⟨[⟨.mark .closeParen, 0, 0⟩], [a], .one ha rfl, by simp⟩
  cases mid with
  | nil =>
    refine .stop expected (fun _ us hus => ?_) hviable
    cases us with
    | nil => rfl
    | cons l us => cases hus
  | cons l us =>
    by_cases hcomma : l.token = .mark .comma
    · refine (hitems l us rfl).after [l] (f := (a :: ·)) (g := fun φ => (reline φ a :: ·))
        (fun _ _ => rfl) (fun φ us => ?_) ?_
      · show moreReader expected item (reline φ a) (l.reline φ :: us) = _
        simp only [moreReader, Lexeme.token_reline, hcomma]
      · rintro as w has
        exact ⟨.cons ha hcomma has, by simp⟩
    by_cases hclose : l.token = .mark .closeParen
    · refine ⟨.ok [a], [l], us, rfl, fun φ us _ => ?_, .one ha hclose, by simp⟩
      show moreReader expected item (reline φ a) (l.reline φ :: us) = _
      simp only [moreReader, Lexeme.token_reline, hclose]
      rfl
    refine .stop expected (fun φ us' hus => ?_) hviable
    cases us' with
    | nil => cases hus
    | cons l' us' =>
      have hl : l'.token = l.token := Option.some.inj hus
      unfold moreReader
      dsimp only
      split
      · next h => exact absurd (hl.symm.trans h) hcomma
      · next h => exact absurd (hl.symm.trans h) hclose
      · rfl

theorem itemsReader_settled (ts : List Lexeme)
    (hitem : ∀ us, us.length ≤ ts.length → Settled (fun _ us => (item us).outcome) Q us) :
    Settled (fun _ => itemsReader expected item) (fun as w => ClosedList Q as w ∧ as ≠ []) ts := by
  have hread := (hitem ts (Nat.le_refl _)).bind (k := fun _ => moreReader expected item)
    (R := fun _ u as w => ClosedList Q as (u ++ w) ∧ as ≠ [])
    (fun a u mid hts hread ha => moreReader_settled expected item ha fun l us hmid => by
      have hfewer := (Parsed.gives_of_outcome hread).fewer
      subst hmid
      exact itemsReader_settled us fun vs hvs => hitem vs (by simp at hfewer; omega))
    fun a u ha => ⟨[⟨.mark .closeParen, 0, 0⟩], [a], .one ha rfl, by simp⟩
  refine (hread.congr fun _ us _ => itemsReader_eq ..).imp ?_
  rintro as w ⟨a, u, v, rfl, -, has⟩
  exact has
termination_by ts.length

theorem readList_settled (ts : List Lexeme)
    (hitem : ∀ us, us.length ≤ ts.length → Settled (fun _ us => (item us).outcome) Q us) :
    Settled (fun _ us => (readList expected us fun us _ => item us).outcome) (ClosedList Q) ts := by
  by_cases hclose : firstToken? ts = some (.mark .closeParen)
  · cases ts with
    | nil => cases hclose
    | cons l us =>
      obtain ⟨t, line, index⟩ := l
      cases hclose
      exact ⟨.ok [], [_], us, rfl, fun _ _ _ => rfl, .nil rfl⟩
  · refine ((itemsReader_settled expected item ts hitem).imp fun _ _ h => h.1).congr
      fun _ us hus => ?_
    rw [readList_eq_readItems (hus ▸ hclose)]
    rfl

end Items

end TagScript
