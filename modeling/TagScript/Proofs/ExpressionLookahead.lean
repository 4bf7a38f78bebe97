import TagScript.Proofs.Lookahead

/-!
# Readers of expressions look one lexeme ahead

`readBinary_settled`, by one induction with the readers it calls. Each reader is first put as an
equation between outcomes, one for each kind of first token, in which the bounds are gone.
-/

namespace TagScript

/-! ### Outcomes of the readers -/

theorem exists_cons_of_firstToken? {ts : List Lexeme} {t : Token} (h : firstToken? ts = some t) :
    ∃ l us, ts = l :: us ∧ l.token = t := by
  cases ts with
  | nil => cases h
  | cons l us => exact ⟨l, us, rfl, Option.some.inj h⟩

/-- `climb` without its bound. -/
def climbReader (least : Nat) (left : Expr) : Reader Expr :=
  fun us => unbounded (climb least left) us

section

variable {least : Nat} {left : Expr} {op : Operator} {l : Lexeme} {us : List Lexeme}

theorem exists_operator_of_not (h : ¬ NoOperator least us) :
    ∃ op l rest, us = l :: rest ∧ l.token = .operator op ∧ least ≤ op.precedence := by
  unfold NoOperator at h
  simp only [Classical.not_forall, Nat.not_lt] at h
  obtain ⟨op, hfirst, hop⟩ := h
  obtain ⟨l, rest, rfl, hl⟩ := exists_cons_of_firstToken? hfirst
  exact ⟨op, l, rest, rfl, hl, hop⟩

theorem climbReader_of_noOperator (h : NoOperator least us) :
    climbReader least left us = (.ok left, us) :=
  (climb_gives_of_noOperator h).outcome_eq

/-- The bound of `climb` does not matter. -/
theorem climb_outcome (us : List Lexeme) (left : Expr) {n : Nat} (h : us.length < n) :
    (climb least left us n h).outcome = climbReader least left us := by
  by_cases hno : NoOperator least us
  · rw [climbReader_of_noOperator hno]
    exact (climb_gives_of_noOperator hno).outcome_eq
  · obtain ⟨op, ⟨_, line, index⟩, rest, rfl, hl, hop⟩ := exists_operator_of_not hno
    cases hl
    rw [climbReader, unbounded, climb, climb, if_pos hop, if_pos hop]
    refine (Parsed.outcome_bind (k := fun right => climbReader least
      (.binary left op right line)) fun right rest' fewer => ?_).trans
      (Parsed.outcome_bind fun right rest' fewer => ?_).symm
    · exact climb_outcome rest' _ _
    · exact climb_outcome rest' _ _
termination_by us.length
decreasing_by all_goals (subst_vars; simp only [List.length_cons]; omega)

theorem climbReader_cons (hl : l.token = .operator op) (hop : least ≤ op.precedence) :
    climbReader least left (l :: us) = (readBinary op.rightPrecedence us).outcome.bind fun right =>
      climbReader least (.binary left op right l.line) := by
  obtain ⟨_, line, index⟩ := l
  cases hl
  rw [climbReader, unbounded, climb, if_pos hop]
  exact Parsed.outcome_bind fun right rest fewer => climb_outcome rest _ _

theorem readBinary_outcome (least : Nat) (us : List Lexeme) :
    (readBinary least us).outcome = (readUnary us).outcome.bind (climbReader least) := by
  rw [readBinary]
  exact Parsed.outcome_bind fun left rest fewer => climb_outcome rest left _

theorem readUnary_prefixed (hl : l.token = .operator op) (hop : op.isPrefixed = true) :
    (readUnary (l :: us)).outcome = (readUnary us).outcome.map (.unary op · l.line) := by
  obtain ⟨_, line, index⟩ := l
  cases hl
  rw [readUnary, if_pos hop]
  exact Parsed.outcome_map ..

theorem readPrimary_call {id : String} (hl : l.token = .identifier id) {o : Lexeme}
    (ho : o.token = .mark .openParen) : (readPrimary (l :: o :: us)).outcome =
      (readList .afterArgument us fun us _ => readBinary 0 us).outcome.map (.call id · l.line) := by
  obtain ⟨_, line, index⟩ := o
  cases ho
  rw [readPrimary]
  simp only [hl]
  exact Parsed.outcome_map ..

theorem readPrimary_group (hl : l.token = .mark .openParen) :
    (readPrimary (l :: us)).outcome = (readBinary 0 us).outcome.bind fun inner us =>
      (expect (.mark .closeParen) .closeGroup us).outcome.map fun _ => inner := by
  rw [readPrimary]
  simp only [hl]
  exact Parsed.outcome_bind fun _ _ _ => Parsed.outcome_map ..

/-- The tokens that a primary starts with. -/
def Token.startsPrimary : Token → Bool
  | .identifier _ | .mark .openParen => true
  | t => t.literal?.isSome

theorem readPrimary_stop (h : ∀ t, firstToken? us = some t → t.startsPrimary = false) :
    (readPrimary us).outcome = Outcome.before us (.error .expression) := by
  cases us with
  | nil => rw [readPrimary]; rfl
  | cons l us =>
    have hl := h _ rfl
    obtain ⟨t, line, index⟩ := l
    rw [readPrimary]
    cases t with
    | mark mark =>
      cases mark with
      | openParen => cases hl
      | _ => rfl
    | number | float | text | bool | identifier => cases hl
    | _ => rfl

end

/-! ### Settled readers -/

theorem Viable.operand : Viable SpellsOperand [] :=
  ⟨[⟨.bool true, 0, 0⟩], .literal (.bool true) 0,
    .literal (l := ⟨.bool true, 0, 0⟩) rfl⟩

theorem Token.startsPrimary_cases {t : Token} (h : t.startsPrimary = true) :
    (∃ value, t.literal? = some value) ∨ (∃ id, t = .identifier id) ∨ t = .mark .openParen := by
  unfold Token.startsPrimary at h
  split at h
  · exact .inr (.inl ⟨_, rfl⟩)
  · exact .inr (.inr rfl)
  · exact .inl (Option.isSome_iff_exists.1 h)

mutual

theorem readUnary_settled (ts : List Lexeme) :
    Settled (fun _ us => (readUnary us).outcome) SpellsOperand ts := by
  by_cases hop : ∃ op, firstToken? ts = some (.operator op) ∧ op.isPrefixed = true
  · obtain ⟨op, hfirst, hop⟩ := hop
    obtain ⟨l, us, rfl, hl⟩ := exists_cons_of_firstToken? hfirst
    refine (readUnary_settled us).after [l] (f := (.unary op · l.line))
      (g := fun φ => (.unary op · (φ l.line))) (fun _ _ => rfl) (fun φ us => ?_) ?_
    · exact readUnary_prefixed (l := l.reline φ) hl hop
    · exact fun e w hw => .unary hl hop hw
  · refine (readPrimary_settled ts).congr fun _ us hus => ?_
    rw [readUnary_eq_readPrimary]
    intro op hfirst
    rw [hus] at hfirst
    exact eq_false_of_ne_true fun h => hop ⟨op, hfirst, h⟩
termination_by 3 * ts.length + 1

theorem readPrimary_settled (ts : List Lexeme) :
    Settled (fun _ us => (readPrimary us).outcome) SpellsOperand ts := by
  by_cases hstart : ∃ t, firstToken? ts = some t ∧ t.startsPrimary = true
  · obtain ⟨t, hfirst, hstart⟩ := hstart
    obtain ⟨l, us, rfl, hl⟩ := exists_cons_of_firstToken? hfirst
    rcases Token.startsPrimary_cases hstart with ⟨value, hvalue⟩ | ⟨id, rfl⟩ | rfl
    · rw [← hl] at hvalue
      refine ⟨.ok (.literal value l.line), [l], us, rfl, fun φ us _ => ?_, .literal hvalue⟩
      exact (readPrimary_literal (l := l.reline φ) hvalue).outcome_eq
    · by_cases hcall : firstToken? us = some (.mark .openParen)
      · obtain ⟨o, us, rfl, ho⟩ := exists_cons_of_firstToken? hcall
        have hargs := readList_settled .afterArgument (readBinary 0) us
          fun vs hvs => readBinary_settled 0 vs
        refine hargs.after [l, o] (f := (.call id · l.line)) (g := fun φ => (.call id · (φ l.line)))
          (fun φ args => ?_) (fun φ us => ?_) ?_
        · show Expr.call id (Expr.relabelAll _ args) _ = _
          rw [relabelAll_eq_reline]
          rfl
        · exact readPrimary_call (l := l.reline φ) hl (o := o.reline φ) ho
        · rintro args _ ⟨w, c, rfl, hc, hw⟩
          exact .call hl ho hc hw
      · refine ⟨.ok (.name id l.line), [l], us, rfl, fun φ us' hus => ?_, .name hl⟩
        exact (readPrimary_name (l := l.reline φ) hl (hus ▸ hcall)).outcome_eq
    · have hinner := (readBinary_settled 0 us).seq (k := fun _ inner us =>
          (expect (.mark .closeParen) .closeGroup us).outcome.map fun _ => inner)
        (R := fun inner e w => e = inner ∧ IsToken (fun _ => .mark .closeParen) () w)
        fun inner mid _ => (expect_settled _ mid _).map (f := fun _ => inner) (fun _ _ => rfl)
          fun _ _ hw => ⟨rfl, hw⟩
      refine hinner.prepend [l] (fun φ us => readPrimary_group (l := l.reline φ) hl) ?_
      rintro e _ ⟨_, u, _, rfl, hu, rfl, c, rfl, hc⟩
      exact .group hl hc hu
  · refine .stop .expression (fun _ us hus => readPrimary_stop fun t ht => ?_) .operand
    rw [hus] at ht
    exact eq_false_of_ne_true fun h => hstart ⟨t, ht, h⟩
termination_by 3 * ts.length
decreasing_by all_goals (subst_vars; simp only [List.length_cons]; omega)

theorem readBinary_settled (least : Nat) (ts : List Lexeme) :
    Settled (fun _ us => (readBinary least us).outcome) (Spells least) ts := by
  refine (((readUnary_settled ts).bind (k := fun _ => climbReader least)
    (R := fun _ u e w => Spells least e (u ++ w)) (fun a u mid hts hread hu => ?_) ?_).congr
      fun _ us _ => readBinary_outcome least us).imp ?_
  · have hfewer := (Parsed.gives_of_outcome hread).fewer
    exact climb_settled least mid (.operand hu) fun op _ _ => hu.left op
  · exact fun a u hu => ⟨[], a, by simpa using .operand hu⟩
  · rintro e _ ⟨a, u, v, rfl, -, hw⟩
    exact hw
termination_by 3 * ts.length + 2

theorem climb_settled (least : Nat) (ts : List Lexeme) {a : Expr} {u : List Lexeme}
    (hu : Spells least a u)
    (hleft : ∀ op, firstToken? ts = some (.operator op) → least ≤ op.precedence →
      SpellsLeft op a u) :
    Settled (fun φ => climbReader least (reline φ a)) (fun e w => Spells least e (u ++ w)) ts := by
  by_cases hno : NoOperator least ts
  · refine .done a (fun φ us hus => climbReader_of_noOperator fun op hop => ?_) (by simpa using hu)
    exact hno op (hus ▸ hop)
  · obtain ⟨op, l, us, rfl, hl, hop⟩ := exists_operator_of_not hno
    have hlhs : SpellsLeft op a u := hleft op (congrArg some hl) hop
    have hright := (readBinary_settled op.rightPrecedence us).bind
      (k := fun φ b => climbReader least (.binary (reline φ a) op b (φ l.line)))
      (R := fun b v e w => Spells least e (u ++ l :: v ++ w)) (fun b v mid hus hread hv => ?_) ?_
    · refine hright.prepend [l] (fun φ us => climbReader_cons (l := l.reline φ) hl hop) ?_
      rintro e _ ⟨b, v, w, rfl, -, hw⟩
      simpa using hw
    · have hgives := Parsed.gives_of_outcome hread
      have hfewer := hgives.fewer
      obtain ⟨_, -, -, hnext, -⟩ := readBinary_sound _ us hgives
      have hab := Spells.of_left hl (Nat.le_refl _) hlhs hv
      exact climb_settled least mid (Spells.of_left hl hop hlhs hv)
        fun next hfirst _ => hab.left_of_lt (hnext next hfirst)
    · exact fun b v hv => ⟨[], .binary a op b l.line, by simpa using Spells.of_left hl hop hlhs hv⟩
termination_by 3 * ts.length
decreasing_by all_goals (subst_vars; simp only [List.length_cons]; omega)

end

end TagScript
