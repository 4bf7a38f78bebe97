import TagScript.Proofs.StatementGrammar

/-!
# Readers of statements read the grammar

`readProgram_eq_ok_iff`: reading gives a program just where the lexemes are spellings of its
statements, one after the other and each ending where it cannot go on. Both directions follow
statements and blocks together. A list of exports is the one form whose end needs the statement
after it: no statement starts with the comma that would go on with it.
-/

namespace TagScript

/-! ### Parameters and names -/

theorem readParam_gives_iff {ts rest : List Lexeme} {param : Param} :
    (readParam ts).Gives param rest ↔ ∃ w, ts = w ++ rest ∧ SpellsParam param w := by
  constructor
  · intro h
    simp only [readParam, Parsed.gives_bind, Parsed.gives_map] at h
    obtain ⟨name, r₁, hname, _, r₂, hcolon, type, htype, rfl⟩ := h
    obtain ⟨n, rfl, hn⟩ := takeName_gives_iff.1 hname
    obtain ⟨c, rfl, hc⟩ := expect_gives_iff.1 hcolon
    obtain ⟨t, rfl, ht⟩ := takeType_gives_iff.1 htype
    exact ⟨[n, c, t], rfl, .mk hn hc ht⟩
  · rintro ⟨_, rfl, ⟨hn, hc, ht⟩⟩
    exact (takeName_gives_iff.2 ⟨_, rfl, hn⟩).bind <|
      (expect_gives_iff (u := ()).2 ⟨_, rfl, hc⟩).bind <|
        (takeType_gives_iff.2 ⟨_, rfl, ht⟩).map _

theorem Separated.imp {α : Type} {P Q : α → List Lexeme → Prop} (hPQ : ∀ a w, P a w → Q a w)
    {as : List α} {w : List Lexeme} (h : Separated P as w) : Separated Q as w := by
  induction h with
  | nil => exact .nil
  | one ha => exact .one (hPQ _ _ ha)
  | cons ha hcomma _ ih => exact .cons (hPQ _ _ ha) hcomma ih

theorem not_readParam_gives_of_closeParen {ts rest : List Lexeme} {param : Param}
    (h : firstToken? ts = some (.mark .closeParen)) : ¬ (readParam ts).Gives param rest := by
  intro hp
  obtain ⟨w, rfl, hw⟩ := readParam_gives_iff.1 hp
  cases hw with
  | mk hn _ _ =>
    rw [List.cons_append, firstToken?_cons, hn] at h
    cases h

/-- The names of an export list after the first, each after a comma. -/
theorem readMoreNames_sound (ts : List Lexeme) {n : Nat} {hn : ts.length < n} {names : List String}
    {rest : List Lexeme} (h : (readMoreNames ts n hn).Gives names rest) {l : Lexeme} {name : String}
    (hl : l.token = .identifier name) :
    ∃ w, l :: ts = w ++ rest ∧ Separated SpellsName (name :: names) w := by
  unfold readMoreNames at h
  split at h
  · next line index us _ =>
    obtain ⟨next, mid, hnext, h⟩ := Parsed.gives_bind.1 h
    obtain ⟨more, hmore, rfl⟩ := Parsed.gives_map.1 h
    obtain ⟨l', rfl, hl'⟩ := takeName_gives_iff.1 hnext
    obtain ⟨w, hw, hspell⟩ := readMoreNames_sound mid hmore hl'
    refine ⟨[l] ++ ⟨.mark .comma, line, index⟩ :: w, ?_, .cons (.mk hl) rfl hspell⟩
    rw [hw]
    rfl
  · obtain ⟨rfl, rfl⟩ := Parsed.gives_ok.1 h
    exact ⟨[l], rfl, .one (.mk hl)⟩
termination_by ts.length

theorem readMoreNames_gives_nil {ts : List Lexeme} {n : Nat} {hn : ts.length < n}
    (h : firstToken? ts ≠ some (.mark .comma)) : (readMoreNames ts n hn).Gives [] ts := by
  unfold readMoreNames
  split
  · exact absurd rfl h
  · exact Parsed.gives_ok.2 ⟨rfl, rfl⟩

theorem readMoreNames_complete {names : List String} {w : List Lexeme}
    (h : Separated SpellsName names w) {rest : List Lexeme}
    (hrest : firstToken? rest ≠ some (.mark .comma)) {name : String} {more : List String}
    (hnames : names = name :: more) : ∃ l ts, w = l :: ts ∧ l.token = .identifier name ∧
      ∀ n hn, (readMoreNames (ts ++ rest) n hn).Gives more rest := by
  induction h generalizing name more with
  | nil => cases hnames
  | one ha =>
    cases hnames
    obtain ⟨hl⟩ := ha
    exact ⟨_, [], rfl, hl, fun n hn => readMoreNames_gives_nil hrest⟩
  | @cons a b as w ws comma ha hcomma _ ih =>
    cases hnames
    obtain ⟨hl⟩ := ha
    obtain ⟨l', ts', rfl, hl', hmore⟩ := ih rfl
    obtain ⟨_, line, index⟩ := comma
    cases hcomma
    refine ⟨_, ⟨.mark .comma, line, index⟩ :: l' :: ts', rfl, hl, fun n hn => ?_⟩
    simp only [List.cons_append]
    rw [readMoreNames]
    exact (takeName_gives_iff.2 ⟨l', rfl, hl'⟩).bind ((hmore n _).map (b :: ·))

/-! ### What is read is spelled -/

/-- An expression at the end of a statement ends the statement, whatever stands before it. -/
theorem readExpression_sound {ts rest : List Lexeme} {e : Expr}
    (h : (readExpression ts).Gives e rest) :
    ∃ w, ts = w ++ rest ∧ Spells 0 e w ∧ NoOperator 0 rest ∧ ∀ u, NoCall (u ++ w) rest := by
  obtain ⟨w, hts, hw, hno, hcall⟩ := readBinary_sound 0 ts h
  exact ⟨w, hts, hw, hno, fun u => (NoCall.append_iff hw.ne_nil).2 hcall⟩

theorem readExpressionStatement_sound {l : Lexeme} {us rest : List Lexeme} {s : Stmt} {n : Nat}
    {hn : (l :: us).length ≤ n}
    (h : ((readExpression (l :: us)).map (.expression · l.line) hn : Parsed Stmt n).Gives s rest) :
    ∃ w, l :: us = w ++ rest ∧ SpellsStmt s w ∧ s.EndsBefore w rest := by
  obtain ⟨value, hvalue, rfl⟩ := Parsed.gives_map.1 h
  obtain ⟨w, hts, hw, hno, hcall⟩ := readExpression_sound hvalue
  cases w with
  | nil => exact absurd rfl hw.ne_nil
  | cons l' w =>
    obtain ⟨rfl, rfl⟩ := List.cons.inj hts
    exact ⟨l :: w, rfl, .expression hw, hno, hcall []⟩

mutual

theorem readStatement_sound (ts : List Lexeme) {s : Stmt} {rest : List Lexeme}
    (h : (readStatement ts).Gives s rest) :
    ∃ w, ts = w ++ rest ∧ SpellsStmt s w ∧ s.EndsBefore w rest := by
  match ts with
  | [] =>
    rw [readStatement] at h
    exact absurd h Parsed.not_gives_error
  | l :: us =>
    rw [readStatement] at h
    -- the first lexeme decides the form; one that starts none of them starts an expression
    split at h
    · next hl =>
      simp only [Parsed.gives_bind, Parsed.gives_map] at h
      obtain ⟨result, r₁, hresult, name, r₂, hname, _, r₃, hopen, params, r₄, hparams, body, hbody,
        rfl⟩ := h
      obtain ⟨t, rfl, ht⟩ := takeType_gives_iff.1 hresult
      obtain ⟨n, rfl, hn⟩ := takeName_gives_iff.1 hname
      obtain ⟨o, rfl, ho⟩ := expect_gives_iff.1 hopen
      obtain ⟨u, c, rfl, hc, hu⟩ := readList_sound (fun _ _ _ _ => readParam_gives_iff.1) hparams
      obtain ⟨v, rfl, hv⟩ := readBlock_sound r₄ hbody
      exact ⟨l :: t :: n :: o :: (u ++ c :: v), by simp, .define hl ht hn ho hu hc hv, trivial⟩
    · next type hl =>
      split at h
      · next hstarts =>
        simp only [Parsed.gives_bind, Parsed.gives_map] at h
        obtain ⟨name, r₁, hname, _, r₂, hassign, init, hinit, rfl⟩ := h
        obtain ⟨n, rfl, hn⟩ := takeName_gives_iff.1 hname
        obtain ⟨q, rfl, hq⟩ := expect_gives_iff.1 hassign
        obtain ⟨w, rfl, hw, hno, hcall⟩ := readExpression_sound hinit
        exact ⟨l :: n :: q :: w, rfl, .declare hl hstarts hn hq hw, hno, hcall [l, n, q]⟩
      · exact readExpressionStatement_sound h
    · next hl =>
      simp only [Parsed.gives_bind, Parsed.gives_map] at h
      obtain ⟨name, r₁, hname, _, r₂, hassign, value, hvalue, rfl⟩ := h
      obtain ⟨n, rfl, hn⟩ := takeName_gives_iff.1 hname
      obtain ⟨q, rfl, hq⟩ := expect_gives_iff.1 hassign
      obtain ⟨w, rfl, hw, hno, hcall⟩ := readExpression_sound hvalue
      exact ⟨l :: n :: q :: w, rfl, .set hl hn hq hw, hno, hcall [l, n, q]⟩
    · next hl =>
      obtain ⟨path, hpath, rfl⟩ := Parsed.gives_map.1 h
      obtain ⟨t, rfl, ht⟩ := takeText_gives_iff.1 hpath
      exact ⟨[l, t], rfl, .fetch hl ht, trivial⟩
    · next hl =>
      simp only [Parsed.gives_bind, Parsed.gives_map] at h
      obtain ⟨name, r₁, hname, names, hnames, rfl⟩ := h
      obtain ⟨n, rfl, hn⟩ := takeName_gives_iff.1 hname
      obtain ⟨w, hw, hspell⟩ := readMoreNames_sound r₁ hnames hn
      exact ⟨l :: w, by rw [hw]; rfl, .launch hl hspell (by simp), trivial⟩
    · next hl =>
      simp only [Parsed.gives_bind] at h
      obtain ⟨_, r₁, hopen, test, r₂, htest, _, r₃, hclose, body, r₄, hbody, h⟩ := h
      obtain ⟨o, rfl, ho⟩ := expect_gives_iff.1 hopen
      obtain ⟨u, rfl, hu, -, -⟩ := readExpression_sound htest
      obtain ⟨c, rfl, hc⟩ := expect_gives_iff.1 hclose
      obtain ⟨v, rfl, hv⟩ := readBlock_sound r₃ hbody
      split at h
      · next line index r₅ _ _ =>
        obtain ⟨alternate, halternate, rfl⟩ := Parsed.gives_map.1 h
        obtain ⟨w, rfl, hw⟩ := readBlock_sound r₅ halternate
        refine ⟨l :: o :: (u ++ c :: (v ++ ⟨.reserved .otherwise, line, index⟩ :: w)), by simp, ?_,
          trivial⟩
        exact .whenElse hl ho hu hc hv rfl hw
      · next hrest =>
        -- without an alternate: the reader has looked at the next lexeme, and it is no `else`
        obtain ⟨rfl, rfl⟩ := Parsed.gives_ok.1 h
        refine ⟨l :: o :: (u ++ c :: v), by simp, .when hl ho hu hc hv, ?_⟩
        refine firstToken?_ne_of_not_cons ?_
        rintro line index r rfl
        exact hrest line index r _ rfl HEq.rfl
    · next hl =>
      obtain ⟨body, hbody, rfl⟩ := Parsed.gives_map.1 h
      obtain ⟨w, rfl, hw⟩ := readBlock_sound us hbody
      exact ⟨l :: w, rfl, .otherwise hl hw, trivial⟩
    · next hl =>
      obtain ⟨value, hvalue, rfl⟩ := Parsed.gives_map.1 h
      obtain ⟨w, rfl, hw, hno, hcall⟩ := readExpression_sound hvalue
      exact ⟨l :: w, rfl, .giveBack hl hw, hno, hcall [l]⟩
    · exact readExpressionStatement_sound h
termination_by 2 * ts.length

theorem readBlock_sound (ts : List Lexeme) {b : Block} {rest : List Lexeme}
    (h : (readBlock ts).Gives b rest) : ∃ w, ts = w ++ rest ∧ SpellsBlock b w := by
  match ts with
  | [] =>
    rw [readBlock] at h
    exact absurd h Parsed.not_gives_error
  | l :: us =>
    rw [readBlock] at h
    split at h
    · next hl =>
      obtain ⟨body, hbody, rfl⟩ := Parsed.gives_map.1 h
      obtain ⟨w, c, rfl, hc, hw⟩ := readBody_sound us hbody
      exact ⟨l :: (w ++ [c]), by simp, .mk hl hw hc⟩
    · exact absurd h Parsed.not_gives_error
termination_by 2 * ts.length

theorem readBody_sound (ts : List Lexeme) {ss : List Stmt} {rest : List Lexeme}
    (h : (readBody ts).Gives ss rest) :
    ∃ w c, ts = w ++ c :: rest ∧ c.token = .mark .closeBrace ∧ SpellsStmts ss w := by
  match ts with
  | [] =>
    rw [readBody] at h
    exact absurd h Parsed.not_gives_error
  | l :: us =>
    rw [readBody] at h
    split at h
    · next hl =>
      obtain ⟨rfl, rfl⟩ := Parsed.gives_ok.1 h
      exact ⟨[], l, rfl, hl, .nil⟩
    · obtain ⟨s, mid, hs, h⟩ := Parsed.gives_bind.1 h
      have hfewer := hs.fewer
      obtain ⟨more, hmore, rfl⟩ := Parsed.gives_map.1 h
      obtain ⟨u, hu, hspell, hends⟩ := readStatement_sound (l :: us) hs
      obtain ⟨w, c, rfl, hc, hw⟩ := readBody_sound mid hmore
      exact ⟨u ++ w, c, by rw [hu, List.append_assoc], hc, .cons hspell hends.of_append hw⟩
termination_by 2 * ts.length + 1
decreasing_by all_goals omega

end

theorem map_eq_ok_iff {ε α β : Type} {f : α → β} {x : Except ε α} {b : β} :
    x.map f = .ok b ↔ ∃ a, x = .ok a ∧ f a = b := by
  cases x <;> simp [Except.map]

theorem readStatements_sound (ts : List Lexeme) {ss : List Stmt} (h : readStatements ts = .ok ss) :
    SpellsStmts ss ts := by
  match ts with
  | [] =>
    rw [readStatements] at h
    cases h
    exact .nil
  | l :: us =>
    rw [readStatements] at h
    split at h
    · next s mid fewer hs =>
      obtain ⟨more, hmore, rfl⟩ := map_eq_ok_iff.1 h
      obtain ⟨u, hu, hspell, hends⟩ := readStatement_sound (l :: us) ⟨fewer, hs⟩
      rw [hu]
      exact .cons hspell hends (readStatements_sound mid hmore)
    · cases h
termination_by ts.length
decreasing_by omega

/-! ### What is spelled is read -/

theorem Spells.readExpression_gives {e : Expr} {w rest : List Lexeme} (h : Spells 0 e w)
    (hno : NoOperator 0 rest) {u : List Lexeme} (hcall : NoCall (u ++ w) rest) :
    (readExpression (w ++ rest)).Gives e rest :=
  h.readBinary_gives hno ((NoCall.append_iff h.ne_nil).1 hcall)

/-- An expression does not start with a word that starts another statement. -/
theorem readStatement_eq_expression {l : Lexeme} {us : List Lexeme}
    (h : l.token.startsOperand = true) : readStatement (l :: us) =
      (readExpression (l :: us)).map (.expression · l.line) (Nat.le_refl _) := by
  rw [readStatement]
  split
  case h_9 => rfl
  all_goals
    next hl =>
    rw [hl] at h
    cases h

/-- A block that does not end at once starts with a statement. -/
theorem readBody_eq_bind {u v : List Lexeme} (hne : u ≠ [])
    (h : firstToken? u ≠ some (.mark .closeBrace)) : readBody (u ++ v) =
      (readStatement (u ++ v)).bind fun first rest fewer =>
        (readBody rest).map (first :: ·) (Nat.le_of_lt fewer) := by
  cases u with
  | nil => exact absurd rfl hne
  | cons l u =>
    rw [List.cons_append, readBody]
    split
    · next hl =>
      rw [firstToken?_cons, hl] at h
      exact absurd rfl h
    · rfl

mutual

theorem SpellsStmt.readStatement_gives {s : Stmt} {w : List Lexeme} (h : SpellsStmt s w)
    {rest : List Lexeme} (hends : s.EndsBefore w rest)
    (hcomma : firstToken? rest ≠ some (.mark .comma)) : (readStatement (w ++ rest)).Gives s rest := by
  match h with
  | @SpellsStmt.define l t n o c name result params body u v hl ht hn ho hu hc hv =>
    have hts : l :: t :: n :: o :: (u ++ c :: v) ++ rest = l :: t :: n :: o :: (u ++ c :: (v ++ rest)) :=
      by simp
    rw [hts, readStatement]
    simp only [hl]
    have hparams : Separated (ReadsItem readParam) params u :=
      hu.imp fun _ w hw l r _ => readParam_gives_iff.2 ⟨w, rfl, hw⟩
    exact (takeType_gives_iff.2 ⟨t, rfl, ht⟩).bind <|
      (takeName_gives_iff.2 ⟨n, rfl, hn⟩).bind <|
        (expect_gives_iff (u := ()).2 ⟨o, rfl, ho⟩).bind <|
          (readList_complete (fun _ _ _ => not_readParam_gives_of_closeParen) hc hparams).bind <|
            (hv.readBlock_gives rest).map _
  | @SpellsStmt.declare l n q type name init w hl hstarts hn hq hw =>
    rw [List.cons_append, List.cons_append, List.cons_append, readStatement]
    simp only [hl, hstarts, if_true]
    exact (takeName_gives_iff.2 ⟨n, rfl, hn⟩).bind <|
      (expect_gives_iff (u := ()).2 ⟨q, rfl, hq⟩).bind <|
        (hw.readExpression_gives (u := [l, n, q]) hends.1 hends.2).map _
  | @SpellsStmt.set l n q name value w hl hn hq hw =>
    rw [List.cons_append, List.cons_append, List.cons_append, readStatement]
    simp only [hl]
    exact (takeName_gives_iff.2 ⟨n, rfl, hn⟩).bind <|
      (expect_gives_iff (u := ()).2 ⟨q, rfl, hq⟩).bind <|
        (hw.readExpression_gives (u := [l, n, q]) hends.1 hends.2).map _
  | @SpellsStmt.when l o c test body u v hl ho hu hc hv =>
    have hts : l :: o :: (u ++ c :: v) ++ rest = l :: o :: (u ++ c :: (v ++ rest)) := by simp
    rw [hts, readStatement]
    simp only [hl]
    refine (expect_gives_iff (u := ()).2 ⟨o, rfl, ho⟩).bind <|
      (hu.readExpression_gives (u := []) (.of_mark hc) (.of_mark hc (by simp))).bind <|
        (expect_gives_iff (u := ()).2 ⟨c, rfl, hc⟩).bind <| (hv.readBlock_gives rest).bind ?_
    split
    · exact absurd rfl hends
    · exact Parsed.gives_ok.2 ⟨rfl, rfl⟩
  | @SpellsStmt.whenElse l o c ⟨_, line, index⟩ test body alternate u v w hl ho hu hc hv he hw =>
    cases he
    have hts : l :: o :: (u ++ c :: (v ++ ⟨.reserved .otherwise, line, index⟩ :: w)) ++ rest =
        l :: o :: (u ++ c :: (v ++ ⟨.reserved .otherwise, line, index⟩ :: (w ++ rest))) := by simp
    rw [hts, readStatement]
    simp only [hl]
    exact (expect_gives_iff (u := ()).2 ⟨o, rfl, ho⟩).bind <|
      (hu.readExpression_gives (u := []) (.of_mark hc) (.of_mark hc (by simp))).bind <|
        (expect_gives_iff (u := ()).2 ⟨c, rfl, hc⟩).bind <| (hv.readBlock_gives _).bind <|
          (hw.readBlock_gives rest).map _
  | @SpellsStmt.otherwise l body w hl hw =>
    rw [List.cons_append, readStatement]
    simp only [hl]
    exact (hw.readBlock_gives rest).map _
  | @SpellsStmt.giveBack l value w hl hw =>
    rw [List.cons_append, readStatement]
    simp only [hl]
    exact (hw.readExpression_gives (u := [l]) hends.1 hends.2).map _
  | @SpellsStmt.expression l value w hw =>
    obtain ⟨t, ht, hstart⟩ := hw.starts
    cases ht
    rw [List.cons_append, readStatement_eq_expression hstart]
    exact (hw.readExpression_gives (u := []) hends.1 hends.2).map _
  | @SpellsStmt.fetch l t path hl ht =>
    rw [List.cons_append, List.cons_append, List.nil_append, readStatement]
    simp only [hl]
    exact (takeText_gives_iff.2 ⟨t, rfl, ht⟩).map _
  | @SpellsStmt.launch l names w hl hw hne =>
    obtain ⟨name, more, hnames⟩ := List.exists_cons_of_ne_nil hne
    obtain ⟨n, ts, rfl, hn, hmore⟩ := readMoreNames_complete hw hcomma hnames
    rw [List.cons_append, List.cons_append, readStatement]
    simp only [hl, hnames]
    exact (takeName_gives_iff.2 ⟨n, rfl, hn⟩).bind ((hmore _ _).map _)

theorem SpellsBlock.readBlock_gives {b : Block} {w : List Lexeme} (h : SpellsBlock b w)
    (rest : List Lexeme) : (readBlock (w ++ rest)).Gives b rest := by
  match h with
  | @SpellsBlock.mk o c body w ho hbody hc =>
    rw [List.cons_append, List.append_assoc, readBlock]
    simp only [ho]
    exact (hbody.readBody_gives hc rest).map _

theorem SpellsStmts.readBody_gives {ss : List Stmt} {w : List Lexeme} (h : SpellsStmts ss w)
    {c : Lexeme} (hc : c.token = .mark .closeBrace) (rest : List Lexeme) :
    (readBody (w ++ c :: rest)).Gives ss rest := by
  match h with
  | .nil =>
    rw [List.nil_append, readBody]
    simp only [hc]
    exact Parsed.gives_ok.2 ⟨rfl, rfl⟩
  | @SpellsStmts.cons s more u v hs hends hmore =>
    rw [List.append_assoc, readBody_eq_bind hs.ne_nil hs.starts.2]
    have hstarts : firstToken? (v ++ c :: rest) ≠ some (.mark .comma) :=
      hmore.starts_append hc rest
    refine (hs.readStatement_gives (hends.append hc) hstarts).bind ?_
    exact (hmore.readBody_gives hc rest).map _

end

theorem readStatements_eq_map {ts rest : List Lexeme} {s : Stmt}
    (h : (readStatement ts).Gives s rest) :
    readStatements ts = (readStatements rest).map (s :: ·) := by
  match ts with
  | [] =>
    rw [readStatement] at h
    exact absurd h Parsed.not_gives_error
  | l :: us =>
    rw [readStatements]
    split
    · next s' mid _ hs =>
      rw [hs] at h
      obtain ⟨rfl, rfl⟩ := Parsed.gives_ok.1 h
      rfl
    · next hs =>
      rw [hs] at h
      exact absurd h Parsed.not_gives_error

theorem SpellsStmts.readStatements_eq {ss : List Stmt} {w : List Lexeme} (h : SpellsStmts ss w) :
    readStatements w = .ok ss := by
  match h with
  | .nil => rw [readStatements]
  | .cons hs hends hmore =>
    rw [readStatements_eq_map (hs.readStatement_gives hends hmore.starts), hmore.readStatements_eq]
    rfl

/-- Reading a program accepts exactly the grammar: the lexemes are spellings of the statements, one
after the other and with none left over, and each statement ends where it cannot go on. -/
theorem readProgram_eq_ok_iff (ts : List Lexeme) (p : Program) :
    readProgram ts = .ok p ↔ SpellsStmts p.body ts := by
  rw [readProgram, map_eq_ok_iff]
  constructor
  · rintro ⟨ss, h, rfl⟩
    exact readStatements_sound ts h
  · intro h
    exact ⟨p.body, h.readStatements_eq, rfl⟩

end TagScript
