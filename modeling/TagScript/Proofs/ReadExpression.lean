import TagScript.Proofs.ExpressionGrammar

/-!
# Readers of expressions read the grammar

`readBinary_gives_iff`: reading by precedence gives exactly the expressions of the grammar, each with
the longest spelling that the lexemes allow. Soundness follows the readers: `climb` carries that its
left operand may stand to the left of the next operator, because the operator before it has read
its right operand to the end. Completeness follows the spellings: `readBinary` on a spelling of `e`
comes to `climb` with `e` on the left.
-/

namespace TagScript

theorem Operator.rightPrecedence_eq {op : Operator} (h : op ≠ .power) :
    op.rightPrecedence = op.precedence + 1 := by
  cases op <;> first | rfl | contradiction

/-! ### What is read is spelled -/

/-- `w` spells `e` as a left operand of `op`. -/
def SpellsLeft (op : Operator) (e : Expr) (w : List Lexeme) : Prop :=
  if op = .power then SpellsOperand e w else Spells op.precedence e w

theorem SpellsOperand.left {e : Expr} {w : List Lexeme} (h : SpellsOperand e w) (op : Operator) :
    SpellsLeft op e w := by
  unfold SpellsLeft
  split
  · exact h
  · exact .operand h

/-- An operation is spelled by its operator between a left operand and a right one. -/
theorem Spells.of_left {least : Nat} {op : Operator} {a b : Expr} {l : Lexeme} {u v : List Lexeme}
    (hl : l.token = .operator op) (hop : least ≤ op.precedence) (ha : SpellsLeft op a u)
    (hb : Spells op.rightPrecedence b v) : Spells least (.binary a op b l.line) (u ++ l :: v) := by
  by_cases hp : op = .power
  · subst hp
    exact .power hl hop ha hb
  · rw [SpellsLeft, if_neg hp] at ha
    rw [Operator.rightPrecedence_eq hp] at hb
    exact .binary hl hp hop ha hb

/-- An operator that does not go on in the right operand of `op` binds no tighter than `op`, so an
operation of `op` may stand to its left. -/
theorem Spells.left_of_lt {op next : Operator} {e : Expr} {w : List Lexeme}
    (h : Spells op.precedence e w) (hlt : next.precedence < op.rightPrecedence) :
    SpellsLeft next e w := by
  have hle : next.precedence ≤ op.precedence := by
    cases op <;> simp only [Operator.rightPrecedence, Operator.precedence] at hlt ⊢ <;> omega
  have hp : next ≠ .power := by
    rintro rfl
    cases op <;> simp [Operator.rightPrecedence, Operator.precedence] at hlt
  rw [SpellsLeft, if_neg hp]
  exact h.mono hle

theorem exists_literal_spelling {l : Lexeme} {value : Literal} {rest : List Lexeme}
    (hv : l.token.literal? = some value) :
    ∃ w, l :: rest = w ++ rest ∧ SpellsOperand (.literal value l.line) w ∧ NoCall w rest := by
  refine ⟨[l], rfl, .literal hv, .of_last fun id hid => ?_⟩
  rw [lastToken?_singleton] at hid
  rw [Option.some.inj hid] at hv
  cases hv

mutual

theorem readUnary_sound (ts : List Lexeme) {e : Expr} {rest : List Lexeme}
    (h : (readUnary ts).Gives e rest) :
    ∃ w, ts = w ++ rest ∧ SpellsOperand e w ∧ NoCall w rest := by
  unfold readUnary at h
  split at h
  · next op line index us =>
    split at h
    · next hop =>
      obtain ⟨a, ha, rfl⟩ := Parsed.gives_map.1 h
      obtain ⟨w, rfl, hw, hcall⟩ := readUnary_sound us ha
      exact ⟨_, rfl, .unary (l := ⟨.operator op, line, index⟩) rfl hop hw,
        (NoCall.cons_iff hw.ne_nil).2 hcall⟩
    · exact readPrimary_sound _ h
  · exact readPrimary_sound _ h
termination_by 3 * ts.length + 1

theorem readPrimary_sound (ts : List Lexeme) {e : Expr} {rest : List Lexeme}
    (h : (readPrimary ts).Gives e rest) :
    ∃ w, ts = w ++ rest ∧ SpellsOperand e w ∧ NoCall w rest := by
  unfold readPrimary at h
  split at h
  · exact absurd h Parsed.not_gives_error
  · next l us =>
    split at h
    · next ht =>
      obtain ⟨rfl, rfl⟩ := Parsed.gives_ok.1 h
      exact exists_literal_spelling (by rw [ht]; rfl)
    · next ht =>
      obtain ⟨rfl, rfl⟩ := Parsed.gives_ok.1 h
      exact exists_literal_spelling (by rw [ht]; rfl)
    · next ht =>
      obtain ⟨rfl, rfl⟩ := Parsed.gives_ok.1 h
      exact exists_literal_spelling (by rw [ht]; rfl)
    · next ht =>
      obtain ⟨rfl, rfl⟩ := Parsed.gives_ok.1 h
      exact exists_literal_spelling (by rw [ht]; rfl)
    · next id ht =>
      split at h
      · next line index us =>
        obtain ⟨args, hargs, rfl⟩ := Parsed.gives_map.1 h
        have hitem : ∀ vs, vs.length ≤ us.length → ∀ a r, (readBinary 0 vs).Gives a r →
            ∃ w, vs = w ++ r ∧ Spells 0 a w := by
          intro vs hvs a r ha
          obtain ⟨w, hw, hspell, -, -⟩ := readBinary_sound 0 vs ha
          exact ⟨w, hw, hspell⟩
        obtain ⟨w, c, rfl, hc, hw⟩ := readList_sound hitem hargs
        refine ⟨l :: ⟨.mark .openParen, line, index⟩ :: (w ++ [c]), by simp, .call ht rfl hc hw, ?_⟩
        exact .append_mark (w := l :: _ :: w) hc
      · next us hus =>
        obtain ⟨rfl, rfl⟩ := Parsed.gives_ok.1 h
        exact ⟨[l], rfl, .name ht, .of_first (firstToken?_ne_of_not_cons hus)⟩
    · next ht =>
      obtain ⟨inner, mid, hinner, h⟩ := Parsed.gives_bind.1 h
      obtain ⟨_, hclose, rfl⟩ := Parsed.gives_map.1 h
      obtain ⟨w, rfl, hw, -, -⟩ := readBinary_sound 0 us hinner
      obtain ⟨c, rfl, hc⟩ := expect_gives_iff.1 hclose
      exact ⟨l :: (w ++ [c]), by simp, .group ht hc hw, .append_mark (w := l :: w) hc⟩
    · exact absurd h Parsed.not_gives_error
termination_by 3 * ts.length
decreasing_by all_goals (subst_vars; simp only [List.length_cons]; omega)

theorem readBinary_sound (least : Nat) (ts : List Lexeme) {e : Expr} {rest : List Lexeme}
    (h : (readBinary least ts).Gives e rest) :
    ∃ w, ts = w ++ rest ∧ Spells least e w ∧ NoOperator least rest ∧ NoCall w rest := by
  rw [readBinary, Parsed.gives_bind] at h
  obtain ⟨a, mid, ha, h⟩ := h
  have hfewer := ha.fewer
  obtain ⟨u, hts, hu, hcall⟩ := readUnary_sound ts ha
  rw [hts]
  exact climb_sound least mid (.operand hu) hcall (fun op _ _ => hu.left op) h
termination_by 3 * ts.length + 2

theorem climb_sound (least : Nat) (ts : List Lexeme) {a e : Expr} {u rest : List Lexeme} {n : Nat}
    {hn : ts.length < n} (hu : Spells least a u) (hcall : NoCall u ts)
    (hleft : ∀ op, firstToken? ts = some (.operator op) → least ≤ op.precedence → SpellsLeft op a u)
    (h : (climb least a ts n hn).Gives e rest) :
    ∃ w, u ++ ts = w ++ rest ∧ Spells least e w ∧ NoOperator least rest ∧ NoCall w rest := by
  unfold climb at h
  split at h
  · next op line index us _ =>
    split at h
    · next hop =>
      obtain ⟨b, mid, hb, h⟩ := Parsed.gives_bind.1 h
      have hfewer := hb.fewer
      obtain ⟨v, rfl, hv, hnext, hcallv⟩ := readBinary_sound _ us hb
      have hab := Spells.of_left (l := ⟨.operator op, line, index⟩) rfl hop (hleft op rfl hop) hv
      -- what is read so far, at the level of its own operator: the left side of the next round
      have hab' := Spells.of_left (l := ⟨.operator op, line, index⟩) rfl (Nat.le_refl _)
        (hleft op rfl hop) hv
      obtain ⟨w, hw, hspell⟩ := climb_sound least mid hab
        ((NoCall.append_iff (by simp)).2 ((NoCall.cons_iff hv.ne_nil).2 hcallv))
        (fun next hfirst _ => hab'.left_of_lt (hnext next hfirst)) h
      exact ⟨w, by simpa using hw, hspell⟩
    · next hop =>
      obtain ⟨rfl, rfl⟩ := Parsed.gives_ok.1 h
      refine ⟨u, rfl, hu, ?_, hcall⟩
      intro next hfirst
      cases hfirst
      omega
  · next hts =>
    obtain ⟨rfl, rfl⟩ := Parsed.gives_ok.1 h
    refine ⟨u, rfl, hu, ?_, hcall⟩
    intro next hfirst
    refine absurd hfirst (firstToken?_ne_of_not_cons ?_)
    rintro line index us rfl
    exact hts next line index us hn rfl HEq.rfl
termination_by 3 * ts.length

end

/-! ### What is spelled is read -/

/-- What follows a spelling at level `p` does not go on inside it: an operator there binds no tighter
than `p`, and a power would need a single operand on its left. -/
def Follows (p : Nat) (rest : List Lexeme) : Prop :=
  ∀ op, firstToken? rest = some (.operator op) →
    op.precedence ≤ p ∧ (op = .power → op.precedence < p)

theorem NoOperator.follows {p : Nat} {rest : List Lexeme} (h : NoOperator p rest) : Follows p rest :=
  fun op hop => ⟨Nat.le_of_lt (h op hop), fun _ => h op hop⟩

theorem Follows.noOperator {p : Nat} {rest : List Lexeme} {op : Operator} (h : Follows p rest)
    (hop : p ≤ op.precedence) : NoOperator op.rightPrecedence rest := by
  intro next hnext
  obtain ⟨hle, hpow⟩ := h next hnext
  have h5 : op.precedence ≤ 5 := by cases op <;> decide
  cases op with
  | power =>
    -- a power that followed would stand at a level above all operators
    have hne : next ≠ .power := by
      rintro rfl
      have := hpow rfl
      simp [Operator.precedence] at this
      omega
    cases next <;> first | contradiction | simp [Operator.precedence, Operator.rightPrecedence]
  | _ => exact Nat.lt_succ_of_le (Nat.le_trans hle hop)

theorem climb_gives_of_noOperator {least : Nat} {e : Expr} {rest : List Lexeme} {n : Nat}
    {hn : rest.length < n} (h : NoOperator least rest) : (climb least e rest n hn).Gives e rest := by
  unfold climb
  split
  · next op line index us _ =>
    rw [if_neg (Nat.not_le.2 (h op rfl))]
    exact Parsed.gives_ok.2 ⟨rfl, rfl⟩
  · exact Parsed.gives_ok.2 ⟨rfl, rfl⟩

/-- One round of climbing: an operator and its right operand are read. -/
theorem climb_cons_eq {least : Nat} {a b : Expr} {op : Operator} {l : Lexeme} {us rest : List Lexeme}
    {n : Nat} {hn : (l :: us).length < n} (hl : l.token = .operator op) (hop : least ≤ op.precedence)
    (hb : (readBinary op.rightPrecedence us).Gives b rest) :
    ∃ hn', climb least a (l :: us) n hn = climb least (.binary a op b l.line) rest n hn' := by
  obtain ⟨_, line, index⟩ := l
  cases hl
  obtain ⟨fewer, hb⟩ := hb
  rw [climb, if_pos hop, hb]
  exact ⟨_, rfl⟩

theorem readUnary_eq_readPrimary {ts : List Lexeme}
    (h : ∀ op, firstToken? ts = some (.operator op) → op.isPrefixed = false) :
    readUnary ts = readPrimary ts := by
  unfold readUnary
  split
  · next op line index us =>
    rw [if_neg (by simp [h op rfl])]
  · rfl

theorem readPrimary_literal {l : Lexeme} {value : Literal} {rest : List Lexeme}
    (hv : l.token.literal? = some value) :
    (readPrimary (l :: rest)).Gives (.literal value l.line) rest := by
  rw [readPrimary]
  unfold Token.literal? at hv
  split at hv <;> cases hv <;> next ht => simp only [ht, Parsed.gives_ok, and_self]

theorem readPrimary_name {l : Lexeme} {id : String} {rest : List Lexeme}
    (hl : l.token = .identifier id) (hrest : firstToken? rest ≠ some (.mark .openParen)) :
    (readPrimary (l :: rest)).Gives (.name id l.line) rest := by
  rw [readPrimary]
  simp only [hl]
  split
  · exact absurd rfl hrest
  · exact Parsed.gives_ok.2 ⟨rfl, rfl⟩

/-- An expression is read where climbing comes to it and goes no further. -/
theorem readBinary_gives_of_eq_climb {least : Nat} {e : Expr} {ts rest : List Lexeme}
    (hno : NoOperator least rest)
    (h : ∃ hn, readBinary least ts = climb least e rest ts.length hn) :
    (readBinary least ts).Gives e rest := by
  obtain ⟨hn, h⟩ := h
  rw [h]
  exact climb_gives_of_noOperator hno

/-- No expression starts with a closing parenthesis. -/
theorem not_readBinary_gives_of_closeParen {least : Nat} {ts : List Lexeme} {e : Expr}
    {rest : List Lexeme} (h : firstToken? ts = some (.mark .closeParen)) :
    ¬ (readBinary least ts).Gives e rest := by
  intro he
  obtain ⟨w, rfl, hw, -, -⟩ := readBinary_sound least ts he
  obtain ⟨t, ht, hstart⟩ := hw.starts
  rw [firstToken?_append hw.ne_nil, ht] at h
  cases h
  cases hstart

mutual

theorem SpellsOperand.readUnary_gives {e : Expr} {w : List Lexeme} (h : SpellsOperand e w)
    {rest : List Lexeme} (hcall : NoCall w rest) : (readUnary (w ++ rest)).Gives e rest := by
  match h with
  | @SpellsOperand.literal l value hv =>
    rw [List.cons_append, List.nil_append, readUnary_eq_readPrimary]
    · exact readPrimary_literal hv
    · intro op hop
      rw [Option.some.inj hop] at hv
      cases hv
  | @SpellsOperand.name l id hl =>
    rw [List.cons_append, List.nil_append, readUnary_eq_readPrimary (by simp [hl])]
    exact readPrimary_name hl (hcall id (by simp [hl]))
  | @SpellsOperand.call l ⟨_, line, index⟩ c id args w hl ho hc hargs =>
    cases ho
    rw [List.cons_append, List.cons_append, List.append_assoc,
      readUnary_eq_readPrimary (by simp [hl]), readPrimary]
    simp only [hl]
    exact (readList_complete (fun _ _ _ => not_readBinary_gives_of_closeParen) hc
      hargs.readsItem).map (Expr.call id · l.line)
  | @SpellsOperand.group o c e w ho hc hinner =>
    rw [List.cons_append, List.append_assoc, readUnary_eq_readPrimary (by simp [ho]), readPrimary]
    simp only [ho]
    have hno : NoOperator 0 (c :: rest) := .of_mark hc
    have he := readBinary_gives_of_eq_climb hno
      (hinner.readBinary_eq_climb (Nat.le_refl 0) hno.follows (.of_mark hc (by simp)))
    exact he.bind ((expect_gives_iff (u := ()).2 ⟨c, rfl, hc⟩).map _)
  | @SpellsOperand.unary ⟨_, line, index⟩ op a w hl hop ha =>
    cases hl
    rw [List.cons_append, readUnary, if_pos hop]
    exact (ha.readUnary_gives ((NoCall.cons_iff ha.ne_nil).1 hcall)).map (Expr.unary op · line)

theorem Separated.readsItem {es : List Expr} {w : List Lexeme} (h : Separated (Spells 0) es w) :
    Separated (ReadsItem (readBinary 0)) es w := by
  match h with
  | .nil => exact .nil
  | .one ha =>
    refine .one fun l rest hl => ?_
    exact readBinary_gives_of_eq_climb (.of_separator hl) (ha.readBinary_eq_climb (Nat.le_refl 0)
      (NoOperator.of_separator hl).follows (.of_separator hl))
  | .cons ha hcomma hmore =>
    refine .cons (fun l rest hl => ?_) hcomma hmore.readsItem
    exact readBinary_gives_of_eq_climb (.of_separator hl) (ha.readBinary_eq_climb (Nat.le_refl 0)
      (NoOperator.of_separator hl).follows (.of_separator hl))

theorem Spells.readBinary_eq_climb {p : Nat} {e : Expr} {w : List Lexeme} (h : Spells p e w)
    {least : Nat} {rest : List Lexeme} (hp : least ≤ p) (hf : Follows p rest) (hcall : NoCall w rest) :
    ∃ hn, readBinary least (w ++ rest) = climb least e rest (w ++ rest).length hn := by
  match h with
  | .operand h =>
    obtain ⟨hn, h⟩ := h.readUnary_gives hcall
    rw [readBinary, h]
    exact ⟨hn, rfl⟩
  | @Spells.binary _ l op a b u v hl hop hle ha hb =>
    have hcallv : NoCall v rest :=
      (NoCall.cons_iff hb.ne_nil).1 ((NoCall.append_iff (by simp)).1 hcall)
    have hno : NoOperator op.rightPrecedence rest := hf.noOperator hle
    rw [Operator.rightPrecedence_eq hop] at hno
    have hright := readBinary_gives_of_eq_climb hno
      (hb.readBinary_eq_climb (Nat.le_refl _) hno.follows hcallv)
    rw [← Operator.rightPrecedence_eq hop] at hright
    have hfu : Follows op.precedence (l :: (v ++ rest)) := by
      intro next hnext
      rw [firstToken?_cons, hl] at hnext
      cases hnext
      exact ⟨Nat.le_refl _, fun he => absurd he hop⟩
    obtain ⟨hn, hu⟩ := ha.readBinary_eq_climb (Nat.le_trans hp hle) hfu
      (.of_first (by simp [hl]))
    rw [List.append_assoc, List.cons_append, hu]
    exact climb_cons_eq hl (Nat.le_trans hp hle) hright
  | @Spells.power _ l a b u v hl hle ha hb =>
    have hcallv : NoCall v rest :=
      (NoCall.cons_iff hb.ne_nil).1 ((NoCall.append_iff (by simp)).1 hcall)
    have hno : NoOperator Operator.power.rightPrecedence rest := hf.noOperator hle
    have hright := readBinary_gives_of_eq_climb hno
      (hb.readBinary_eq_climb (Nat.le_refl _) hno.follows hcallv)
    have hcallu : NoCall u (l :: (v ++ rest)) := .of_first (by simp [hl])
    obtain ⟨hn, hu⟩ := ha.readUnary_gives hcallu
    rw [List.append_assoc, List.cons_append, readBinary, hu]
    exact climb_cons_eq hl (Nat.le_trans hp hle) hright

end

theorem Spells.readBinary_gives {least : Nat} {e : Expr} {w rest : List Lexeme}
    (h : Spells least e w) (hno : NoOperator least rest) (hcall : NoCall w rest) :
    (readBinary least (w ++ rest)).Gives e rest :=
  readBinary_gives_of_eq_climb hno (h.readBinary_eq_climb (Nat.le_refl _) hno.follows hcall)

/-- Reading by precedence accepts exactly the grammar: it gives `e` and leaves `rest` just where the
lexemes before `rest` spell `e` and nothing in `rest` goes on with it. -/
theorem readBinary_gives_iff (least : Nat) (ts : List Lexeme) (e : Expr) (rest : List Lexeme) :
    (readBinary least ts).Gives e rest ↔
      ∃ w, ts = w ++ rest ∧ Spells least e w ∧ NoOperator least rest ∧ NoCall w rest := by
  constructor
  · exact readBinary_sound least ts
  · rintro ⟨w, rfl, hw, hno, hcall⟩
    exact hw.readBinary_gives hno hcall

end TagScript
