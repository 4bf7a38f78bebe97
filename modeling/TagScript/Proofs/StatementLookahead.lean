import TagScript.Proofs.ExpressionLookahead
import TagScript.Proofs.ReadStatement

/-!
# Readers of statements look one lexeme ahead

`readStatements_settled`: reading a program stops at the first lexeme after which no program can go
on, and what it does up to there depends on tokens only. The forms of statements are sequences of
stages, so `Settled.seq` goes through them; statements in a row need more, since each has to end
where the next one starts.
-/

namespace TagScript

/-! ### Parameters and exported names -/

theorem readParam_settled (ts : List Lexeme) :
    Settled (fun _ us => (readParam us).outcome) SpellsParam ts := by
  have hstages := (takeName_settled .paramName ts).seq
    (k := fun _ name us => (expect (.mark .colon) .paramColon us).outcome.bind fun _ us =>
      (takeType .paramType us).outcome.map (Param.mk name))
    fun name mid _ => (expect_settled .paramColon mid (.mark .colon)).seq fun _ mid _ =>
      (takeType_settled .paramType mid).map (f := Param.mk name)
        (R := fun param w => param.name = name ∧ IsToken Token.type param.type w)
        (fun _ _ => rfl) fun _ _ hw => ⟨rfl, hw⟩
  refine (hstages.congr fun _ us _ => ?_).imp ?_
  · rw [readParam]
    exact Parsed.outcome_bind fun _ _ _ => Parsed.outcome_bind fun _ _ _ => Parsed.outcome_map ..
  · rintro param _ ⟨_, _, _, rfl, ⟨n, rfl, hn⟩, _, _, _, rfl, ⟨c, rfl, hc⟩, rfl, t, rfl, ht⟩
    exact .mk hn hc ht

/-- `readMoreNames` without its bound. -/
def namesReader : Reader (List String) :=
  fun us => unbounded readMoreNames us

theorem namesReader_of_first {us : List Lexeme} (h : firstToken? us ≠ some (.mark .comma)) :
    namesReader us = (.ok [], us) :=
  (readMoreNames_gives_nil h).outcome_eq

theorem readMoreNames_outcome (us : List Lexeme) {n : Nat} (h : us.length < n) :
    (readMoreNames us n h).outcome = namesReader us := by
  by_cases hcomma : firstToken? us = some (.mark .comma)
  · obtain ⟨⟨_, line, index⟩, rest, rfl, hl⟩ := exists_cons_of_firstToken? hcomma
    cases hl
    rw [namesReader, unbounded, readMoreNames, readMoreNames]
    refine (Parsed.outcome_bind (k := fun name us => (namesReader us).map (name :: ·))
      fun name rest' fewer => ?_).trans (Parsed.outcome_bind fun name rest' fewer => ?_).symm
    · rw [Parsed.outcome_map, readMoreNames_outcome rest']
    · rw [Parsed.outcome_map, readMoreNames_outcome rest']
  · rw [namesReader_of_first hcomma]
    exact (readMoreNames_gives_nil hcomma).outcome_eq
termination_by us.length
decreasing_by all_goals (subst_vars; simp only [List.length_cons]; omega)

theorem namesReader_cons {l : Lexeme} (hl : l.token = .mark .comma) (us : List Lexeme) :
    namesReader (l :: us) = (takeName .nextExportName us).outcome.bind fun name us =>
      (namesReader us).map (name :: ·) := by
  obtain ⟨_, line, index⟩ := l
  cases hl
  rw [namesReader, unbounded, readMoreNames]
  refine Parsed.outcome_bind fun name rest fewer => ?_
  rw [Parsed.outcome_map, readMoreNames_outcome]

/-- The names after the name `l` of an export list. -/
theorem namesReader_settled (ts : List Lexeme) {l : Lexeme} {name : String}
    (hl : l.token = .identifier name) : Settled (fun _ => namesReader)
      (fun names w => Separated SpellsName (name :: names) (l :: w)) ts := by
  by_cases hcomma : firstToken? ts = some (.mark .comma)
  · obtain ⟨c, us, rfl, hc⟩ := exists_cons_of_firstToken? hcomma
    have hstages := (takeName_settled .nextExportName us).bind
      (k := fun _ name us => (namesReader us).map (name :: ·))
      (R := fun next u names w => Separated SpellsName (name :: names) (l :: c :: (u ++ w)))
      (fun next u mid hus _ hu => ?_) ?_
    · refine hstages.prepend [c] (fun φ us => namesReader_cons (l := c.reline φ) hc us) ?_
      rintro names _ ⟨_, u, w, rfl, -, hw⟩
      exact hw
    · obtain ⟨n, rfl, hn⟩ := hu
      refine (namesReader_settled mid hn).map (f := (next :: ·)) (fun _ _ => rfl)
        fun names w hw => ?_
      exact .cons (w := [l]) (.mk hl) hc hw
    · rintro next u ⟨n, rfl, hn⟩
      exact ⟨[], [next], .cons (w := [l]) (.mk hl) hc (.one (.mk hn))⟩
  · exact .done [] (fun _ us hus => namesReader_of_first (hus ▸ hcomma)) (.one (.mk hl))
termination_by ts.length
decreasing_by all_goals (subst_vars; simp only [List.length_cons, List.length_append]; omega)

/-! ### Forms of statements -/

/-- Every block that starts at or after `ts` is settled. -/
def BlocksSettled (ts : List Lexeme) : Prop :=
  ∀ us, us.length ≤ ts.length → Settled (fun _ us => (readBlock us).outcome) SpellsBlock us

section Forms

variable {l : Lexeme} {us : List Lexeme}

theorem readExpression_settled (us : List Lexeme) :
    Settled (fun _ us => (readExpression us).outcome) (Spells 0) us :=
  readBinary_settled 0 us

theorem define_settled (hl : l.token = .reserved .define) (hblock : BlocksSettled us) :
    Settled (fun _ us => (readStatement us).outcome) SpellsStmt (l :: us) := by
  have hstages := (takeType_settled .resultType us).seq
    (k := fun φ result us => (takeName .functionName us).outcome.bind fun name us =>
      (expect (.mark .openParen) .openParams us).outcome.bind fun _ us =>
        (readList .afterParam us fun us _ => readParam us).outcome.bind fun params us =>
          (readBlock us).outcome.map (Stmt.define name result params · (φ l.line)))
    fun result us₁ h₁ => (takeName_settled .functionName us₁).seq fun name us₂ h₂ =>
      (expect_settled .openParams us₂ (.mark .openParen)).seq fun _ us₃ h₃ =>
        (readList_settled .afterParam readParam us₃ fun vs _ => readParam_settled vs).seq
          fun params us₄ h₄ =>
            (hblock us₄ (by omega)).map (f := (Stmt.define name result params · l.line))
              (R := fun s w => ∃ body, s = .define name result params body l.line ∧
                SpellsBlock body w)
              (fun φ body => by simp [reline, Stmt.relabel]) fun body _ hw => ⟨body, rfl, hw⟩
  refine hstages.prepend [l] (fun φ us => ?_) ?_
  · show (readStatement (l.reline φ :: us)).outcome = _
    rw [readStatement]
    simp only [Lexeme.token_reline, hl]
    exact Parsed.outcome_bind fun _ _ _ => Parsed.outcome_bind fun _ _ _ =>
      Parsed.outcome_bind fun _ _ _ => Parsed.outcome_bind fun _ _ _ => Parsed.outcome_map ..
  · rintro s _ ⟨result, _, _, rfl, ⟨t, rfl, ht⟩, name, _, _, rfl, ⟨n, rfl, hn⟩, _, _, _, rfl,
      ⟨o, rfl, ho⟩, params, _, v, rfl, ⟨u, c, rfl, hc, hu⟩, body, rfl, hv⟩
    simpa using SpellsStmt.define hl ht hn ho hu hc hv

/-- A name, `=` and an expression. -/
def assignReader (named valued : Expectation) (f : String → Expr → Stmt) : Reader Stmt :=
  fun us => (takeName named us).outcome.bind fun name us =>
    (expect (.operator .assign) valued us).outcome.bind fun _ us =>
      (readExpression us).outcome.map (f name)

theorem assignReader_settled (named valued : Expectation) {f : String → Expr → Stmt}
    {g : (Nat → Nat) → String → Expr → Stmt}
    (hg : ∀ φ name e, reline φ (f name e) = g φ name (reline φ e)) (us : List Lexeme) :
    Settled (fun φ => assignReader named valued (g φ))
      (fun s w => ∃ name e n q v, s = f name e ∧ w = n :: q :: v ∧ n.token = .identifier name ∧
        q.token = .operator .assign ∧ Spells 0 e v) us := by
  have hstages := (takeName_settled named us).seq
    (k := fun φ name us => (expect (.operator .assign) valued us).outcome.bind fun _ us =>
      (readExpression us).outcome.map (g φ name))
    fun name us _ => (expect_settled valued us (.operator .assign)).seq fun _ us _ =>
      (readExpression_settled us).map (f := f name)
        (R := fun s w => ∃ e, s = f name e ∧ Spells 0 e w) (fun φ e => hg φ name e)
        fun e _ hw => ⟨e, rfl, hw⟩
  refine hstages.imp ?_
  rintro s _ ⟨name, _, _, rfl, ⟨n, rfl, hn⟩, _, _, v, rfl, ⟨q, rfl, hq⟩, e, rfl, hv⟩
  exact ⟨name, e, n, q, v, rfl, rfl, hn, hq, hv⟩

theorem declare_settled {type : TypeWord} (hl : l.token = .type type)
    (hstarts : type.startsDeclaration = true) :
    Settled (fun _ us => (readStatement us).outcome) SpellsStmt (l :: us) := by
  refine (assignReader_settled .declaredName .declaredValue (f := (Stmt.declare type · · l.line))
    (g := fun φ => (Stmt.declare type · · (φ l.line))) (fun _ _ _ => rfl) us).prepend [l]
      (fun φ us => ?_) ?_
  · show (readStatement (l.reline φ :: us)).outcome = _
    rw [readStatement]
    simp only [Lexeme.token_reline, hl, hstarts, if_true]
    exact Parsed.outcome_bind fun _ _ _ => Parsed.outcome_bind fun _ _ _ => Parsed.outcome_map ..
  · rintro _ _ ⟨name, e, n, q, v, rfl, rfl, hn, hq, hv⟩
    exact .declare hl hstarts hn hq hv

theorem set_settled (hl : l.token = .reserved .set) :
    Settled (fun _ us => (readStatement us).outcome) SpellsStmt (l :: us) := by
  refine (assignReader_settled .setName .setValue (f := (Stmt.set · · l.line))
    (g := fun φ => (Stmt.set · · (φ l.line))) (fun _ _ _ => rfl) us).prepend [l]
      (fun φ us => ?_) ?_
  · show (readStatement (l.reline φ :: us)).outcome = _
    rw [readStatement]
    simp only [Lexeme.token_reline, hl]
    exact Parsed.outcome_bind fun _ _ _ => Parsed.outcome_bind fun _ _ _ => Parsed.outcome_map ..
  · rintro _ _ ⟨name, e, n, q, v, rfl, rfl, hn, hq, hv⟩
    exact .set hl hn hq hv

theorem fetch_settled (hl : l.token = .reserved .fetch) :
    Settled (fun _ us => (readStatement us).outcome) SpellsStmt (l :: us) := by
  refine (takeText_settled .modulePath us).after [l] (f := (.fetch · l.line))
    (g := fun φ => (.fetch · (φ l.line))) (fun _ _ => rfl) (fun φ us => ?_) ?_
  · show (readStatement (l.reline φ :: us)).outcome = _
    rw [readStatement]
    simp only [Lexeme.token_reline, hl]
    exact Parsed.outcome_map ..
  · rintro path _ ⟨t, rfl, ht⟩
    exact .fetch hl ht

theorem launch_settled (hl : l.token = .reserved .launch) :
    Settled (fun _ us => (readStatement us).outcome) SpellsStmt (l :: us) := by
  have hstages := (takeName_settled .exportName us).bind
    (k := fun φ name us => (namesReader us).map fun names => Stmt.launch (name :: names) (φ l.line))
    (R := fun name u s w => ∃ names, s = .launch (name :: names) l.line ∧
      Separated SpellsName (name :: names) (u ++ w))
    (fun name u mid _ _ hu => ?_) ?_
  · refine hstages.prepend [l] (fun φ us => ?_) ?_
    · show (readStatement (l.reline φ :: us)).outcome = _
      rw [readStatement]
      simp only [Lexeme.token_reline, hl]
      refine Parsed.outcome_bind fun name us fewer => ?_
      rw [Parsed.outcome_map, readMoreNames_outcome]
      rfl
    · rintro s _ ⟨name, u, w, rfl, -, names, rfl, hw⟩
      exact .launch hl hw (by simp)
  · obtain ⟨n, rfl, hn⟩ := hu
    refine (namesReader_settled mid hn).map (f := fun names => .launch (name :: names) l.line)
      (fun φ names => ?_) fun names w hw => ⟨names, rfl, hw⟩
    show Stmt.launch (name :: names) (φ l.line) = .launch (name :: List.map id names) (φ l.line)
    rw [List.map_id]
  · rintro name u ⟨n, rfl, hn⟩
    exact ⟨[], _, [], rfl, .one (.mk hn)⟩

/-- Reads an alternate, if there is one, after the test and the block of a conditional. -/
def alternateReader (test : Expr) (body : Block) (line : Nat) : Reader Stmt
  | ⟨.reserved .otherwise, _, _⟩ :: us =>
    (readBlock us).outcome.map fun alternate => .when test body (some alternate) line
  | us => (.ok (.when test body none line), us)

theorem alternateReader_of_first {test : Expr} {body : Block} {line : Nat}
    (h : firstToken? us ≠ some (.reserved .otherwise)) :
    alternateReader test body line us = (.ok (.when test body none line), us) := by
  unfold alternateReader
  split
  · exact absurd rfl h
  · rfl

theorem alternateReader_settled (hblock : BlocksSettled us) (test : Expr) (body : Block)
    (line : Nat) : Settled (fun φ => alternateReader (reline φ test) (reline φ body) (φ line))
      (fun s w => s = .when test body none line ∧ w = [] ∨ ∃ e alternate v, e.token =
        .reserved .otherwise ∧ s = .when test body (some alternate) line ∧ w = e :: v ∧
          SpellsBlock alternate v) us := by
  by_cases helse : firstToken? us = some (.reserved .otherwise)
  · obtain ⟨⟨_, eline, index⟩, us, rfl, he⟩ := exists_cons_of_firstToken? helse
    cases he
    refine (hblock us (by simp)).after [_] (f := fun b => .when test body (some b) line)
      (g := fun φ b => .when (reline φ test) (reline φ body) (some b) (φ line)) (fun _ _ => rfl)
      (fun _ _ => rfl) fun alternate v hv => ?_
    exact .inr ⟨_, alternate, v, rfl, rfl, rfl, hv⟩
  · refine .done (.when test body none line) (fun φ us hus => ?_) (.inl ⟨rfl, rfl⟩)
    exact alternateReader_of_first (hus ▸ helse)

theorem when_settled (hl : l.token = .reserved .when) (hblock : BlocksSettled us) :
    Settled (fun _ us => (readStatement us).outcome) SpellsStmt (l :: us) := by
  have hstages := (expect_settled .openTest us (.mark .openParen)).seq
    (k := fun φ _ us => (readExpression us).outcome.bind fun test us =>
      (expect (.mark .closeParen) .closeTest us).outcome.bind fun _ us =>
        (readBlock us).outcome.bind fun body => alternateReader test body (φ l.line))
    fun _ us₁ h₁ => (readExpression_settled us₁).seq fun test us₂ h₂ =>
      (expect_settled .closeTest us₂ (.mark .closeParen)).seq fun _ us₃ h₃ =>
        (hblock us₃ (by omega)).seq fun body us₄ h₄ =>
          alternateReader_settled (fun vs hvs => hblock vs (by omega)) test body l.line
  refine hstages.prepend [l] (fun φ us => ?_) ?_
  · show (readStatement (l.reline φ :: us)).outcome = _
    rw [readStatement]
    simp only [Lexeme.token_reline, hl]
    refine Parsed.outcome_bind fun _ _ _ => Parsed.outcome_bind fun _ _ _ =>
      Parsed.outcome_bind fun _ _ _ => Parsed.outcome_bind fun body us fewer => ?_
    split
    · exact Parsed.outcome_map ..
    · next hrest =>
      refine (alternateReader_of_first (firstToken?_ne_of_not_cons ?_)).symm
      rintro line index r rfl
      exact hrest line index r fewer rfl HEq.rfl
  · rintro s _ ⟨_, _, _, rfl, ⟨o, rfl, ho⟩, test, u, _, rfl, hu, _, _, _, rfl, ⟨c, rfl, hc⟩, body,
      v, w, rfl, hv, ⟨rfl, rfl⟩ | ⟨e, alternate, w, he, rfl, rfl, hw⟩⟩
    · simpa using SpellsStmt.when hl ho hu hc hv
    · simpa using SpellsStmt.whenElse hl ho hu hc hv he hw

theorem otherwise_settled (hl : l.token = .reserved .otherwise) (hblock : BlocksSettled us) :
    Settled (fun _ us => (readStatement us).outcome) SpellsStmt (l :: us) := by
  refine (hblock us (Nat.le_refl _)).after [l] (f := (.otherwise · l.line))
    (g := fun φ => (.otherwise · (φ l.line))) (fun _ _ => rfl) (fun φ us => ?_) ?_
  · show (readStatement (l.reline φ :: us)).outcome = _
    rw [readStatement]
    simp only [Lexeme.token_reline, hl]
    exact Parsed.outcome_map ..
  · exact fun body w hw => .otherwise hl hw

theorem giveBack_settled (hl : l.token = .reserved .giveBack) :
    Settled (fun _ us => (readStatement us).outcome) SpellsStmt (l :: us) := by
  refine (readExpression_settled us).after [l] (f := (.giveBack · l.line))
    (g := fun φ => (.giveBack · (φ l.line))) (fun _ _ => rfl) (fun φ us => ?_) ?_
  · show (readStatement (l.reline φ :: us)).outcome = _
    rw [readStatement]
    simp only [Lexeme.token_reline, hl]
    exact Parsed.outcome_map ..
  · exact fun value w hw => .giveBack hl hw

theorem Viable.statement : Viable SpellsStmt [] :=
  ⟨[⟨.bool true, 0, 0⟩], _, .expression (.operand (.literal rfl))⟩

/-- A first token that starts no other form starts an expression. The statement has the line of that
token, and takes it unless the token starts no expression either. -/
theorem expression_settled (hform : ∀ l' us', l'.token = l.token → readStatement (l' :: us') =
      (readExpression (l' :: us')).map (.expression · l'.line) (Nat.le_refl _)) :
    Settled (fun _ us => (readStatement us).outcome) SpellsStmt (l :: us) := by
  obtain ⟨o, w, rest, hts, hstable, hfits⟩ := readExpression_settled (l :: us)
  dsimp only at hstable
  cases w with
  | nil =>
    cases o with
    | ok e => exact absurd rfl hfits.ne_nil
    | error expected =>
      cases hts
      refine .stop expected (fun φ us' hus => ?_) .statement
      obtain ⟨l', us', rfl, hl'⟩ := exists_cons_of_firstToken? hus
      have hread := hstable φ (l' :: us') hus
      rw [relineAll_nil, List.nil_append] at hread
      rw [hform l' us' hl', Parsed.outcome_map, hread]
      rfl
  | cons l' w =>
    obtain ⟨rfl, rfl⟩ := List.cons.inj hts
    refine ⟨o.map (.expression · l.line), l :: w, rest, rfl, fun φ rest' hrest => ?_, ?_⟩
    · have hread := hstable φ rest' hrest
      rw [relineAll_cons, List.cons_append] at hread ⊢
      dsimp only
      rw [hform (l.reline φ) _ rfl, Parsed.outcome_map, hread, Outcome.map_before]
      cases o <;> rfl
    · cases o with
      | ok e => exact .expression hfits
      | error =>
        obtain ⟨v, e, he⟩ := hfits
        exact ⟨v, _, .expression he⟩

end Forms

/-! ### Statements and blocks -/

/-- `w` spells statements and the brace that closes their block. -/
def ClosedBody (ss : List Stmt) (w : List Lexeme) : Prop :=
  ∃ v c, w = v ++ [c] ∧ c.token = .mark .closeBrace ∧ SpellsStmts ss v

theorem ClosedBody.nil {c : Lexeme} (hc : c.token = .mark .closeBrace) : ClosedBody [] [c] :=
  ⟨[], c, rfl, hc, .nil⟩

theorem Viable.closedBody : Viable ClosedBody [] :=
  ⟨[⟨.mark .closeBrace, 0, 0⟩], [], .nil rfl⟩

theorem readBody_of_first {us : List Lexeme} {t : Token} (hfirst : firstToken? us = some t)
    (ht : t ≠ .mark .closeBrace) : (readBody us).outcome = (readStatement us).outcome.bind
      fun first us => (readBody us).outcome.map (first :: ·) := by
  obtain ⟨l, us, rfl, rfl⟩ := exists_cons_of_firstToken? hfirst
  rw [← List.append_nil (l :: us), readBody_eq_bind (by simp) (by simpa using ht)]
  exact Parsed.outcome_bind fun _ _ _ => Parsed.outcome_map ..

/-- The statements after the statement `s`, which has to end where they start. -/
theorem bodyAfter_settled {s : Stmt} {u mid : List Lexeme} (hends : s.EndsBefore u mid)
    (hbody : Settled (fun _ us => (readBody us).outcome) ClosedBody mid) :
    Settled (fun φ us => (readBody us).outcome.map (reline φ s :: ·))
      (fun ss w => ∃ more, ss = s :: more ∧ s.EndsBefore u w ∧ ClosedBody more w) mid := by
  have hrestrict := hbody.restrict (Q := fun more w => s.EndsBefore u w ∧ ClosedBody more w)
    (fun more w hw hfirst => ?_) ?_
  · exact hrestrict.map (f := (s :: ·)) (fun _ _ => rfl) fun more _ hw => ⟨more, rfl, hw⟩
  · rcases hfirst with rfl | hfirst
    · exact ⟨.nil, hw⟩
    · exact ⟨hends.congr hfirst, hw⟩
  · exact ⟨[⟨.mark .closeBrace, 0, 0⟩], [], .of_closeBrace rfl, .nil rfl⟩

theorem readStatement_endsBefore {s : Stmt} {u mid : List Lexeme}
    (h : (readStatement (u ++ mid)).outcome = (.ok s, mid)) : s.EndsBefore u mid := by
  obtain ⟨w, hw, -, hends⟩ := readStatement_sound _ (Parsed.gives_of_outcome h)
  rwa [List.append_cancel_right hw]

mutual

theorem readStatement_settled (ts : List Lexeme) :
    Settled (fun _ us => (readStatement us).outcome) SpellsStmt ts := by
  match ts with
  | [] =>
    refine .stop .statement (fun _ us hus => ?_) .statement
    cases us with
    | nil => rw [readStatement]; rfl
    | cons l us => cases hus
  | l :: us =>
    have hblock : BlocksSettled us := fun vs hvs => readBlock_settled vs
    obtain ⟨t, line, index⟩ := l
    cases t with
    | reserved word =>
      cases word with
      | define => exact define_settled rfl hblock
      | set => exact set_settled rfl
      | fetch => exact fetch_settled rfl
      | launch => exact launch_settled rfl
      | when => exact when_settled rfl hblock
      | otherwise => exact otherwise_settled rfl hblock
      | giveBack => exact giveBack_settled rfl
      | classWord | newWord =>
        exact expression_settled fun l' us' hl' => by
          rw [readStatement]
          simp only [hl']
    | type type =>
      by_cases hstarts : type.startsDeclaration = true
      · exact declare_settled rfl hstarts
      · exact expression_settled fun l' us' hl' => by
          rw [readStatement]
          simp only [hl', if_neg hstarts]
    | _ =>
      exact expression_settled fun l' us' hl' => by
        rw [readStatement]
        simp only [hl']
termination_by 2 * ts.length

theorem readBlock_settled (ts : List Lexeme) :
    Settled (fun _ us => (readBlock us).outcome) SpellsBlock ts := by
  have hviable : Viable SpellsBlock [] :=
    ⟨[⟨.mark .openBrace, 0, 0⟩, ⟨.mark .closeBrace, 0, 0⟩], _,
      .mk (o := ⟨.mark .openBrace, 0, 0⟩) rfl .nil rfl⟩
  by_cases hopen : firstToken? ts = some (.mark .openBrace)
  · obtain ⟨l, us, rfl, hl⟩ := exists_cons_of_firstToken? hopen
    refine (readBody_settled us).after [l] (f := (Block.mk · l.line))
      (g := fun φ => (Block.mk · (φ l.line))) (fun φ body => ?_) (fun φ us => ?_) ?_
    · show Block.mk (Stmt.relabelAll _ body) _ = _
      rw [Stmt.relabelAll_eq_reline]
      rfl
    · show (readBlock (l.reline φ :: us)).outcome = _
      rw [readBlock]
      simp only [Lexeme.token_reline, hl]
      exact Parsed.outcome_map ..
    · rintro body _ ⟨v, c, rfl, hc, hv⟩
      exact .mk hl hv hc
  · refine .stop .openBlock (fun _ us hus => ?_) hviable
    rw [← hus] at hopen
    cases us with
    | nil => rw [readBlock]; rfl
    | cons l us =>
      rw [readBlock]
      split
      · next hl => exact absurd (congrArg some hl) hopen
      · rfl
termination_by 2 * ts.length
decreasing_by subst_vars; simp only [List.length_cons]; omega

theorem readBody_settled (ts : List Lexeme) :
    Settled (fun _ us => (readBody us).outcome) ClosedBody ts := by
  match ts with
  | [] =>
    refine .stop .closeBlock (fun _ us hus => ?_) .closedBody
    cases us with
    | nil => rw [readBody]; rfl
    | cons l us => cases hus
  | l :: us =>
    by_cases hclose : l.token = .mark .closeBrace
    · refine ⟨.ok [], [l], us, rfl, fun φ us _ => ?_, .nil hclose⟩
      show (readBody (l.reline φ :: us)).outcome = _
      rw [readBody]
      simp only [Lexeme.token_reline, hclose]
      rfl
    · have hstages := (readStatement_settled (l :: us)).bind
        (k := fun _ first us => (readBody us).outcome.map (first :: ·))
        (R := fun s u ss w => ∃ more, ss = s :: more ∧ s.EndsBefore u w ∧ ClosedBody more w)
        (fun s u mid hts hread _ => ?_) ?_
      · refine (hstages.congr fun _ us hus => readBody_of_first hus hclose).imp ?_
        rintro _ _ ⟨s, u, _, rfl, hs, more, rfl, hends, v, c, rfl, hc, hv⟩
        exact ⟨u ++ v, c, (List.append_assoc ..).symm, hc, .cons hs hends.of_append hv⟩
      · have hfewer := (Parsed.gives_of_outcome hread).fewer
        rw [hts] at hread
        exact bodyAfter_settled (readStatement_endsBefore hread) (readBody_settled mid)
      · intro s u hs
        exact ⟨[⟨.mark .closeBrace, 0, 0⟩], _, [], rfl, .of_closeBrace rfl, .nil rfl⟩
termination_by 2 * ts.length + 1
decreasing_by all_goals (simp only [List.length_cons] at *; omega)

end

/-! ### Programs -/

theorem readStatements_of_ne_nil {ts : List Lexeme} (h : ts ≠ []) : readStatements ts =
    ((readStatement ts).outcome.bind fun s rest => ((readStatements rest).map (s :: ·), [])).1 := by
  cases ts with
  | nil => exact absurd rfl h
  | cons l us =>
    rw [readStatements]
    split
    · next hs => rw [hs]; rfl
    · next hs => rw [hs]; rfl

/-- Where nothing is taken after a statement, the program may end there. -/
theorem Viable.cons {s : Stmt} {u v rest : List Lexeme} (hs : SpellsStmt s u)
    (hends : s.EndsBefore u (v ++ rest)) (hv : Viable SpellsStmts v) :
    Viable SpellsStmts (u ++ v) := by
  cases v with
  | nil => exact ⟨[], [s], by simpa using SpellsStmts.cons hs .nil .nil⟩
  | cons l v =>
    obtain ⟨v', ss, hss⟩ := hv
    refine ⟨v', s :: ss, ?_⟩
    rw [List.append_assoc]
    exact .cons hs (hends.congr rfl) hss

/-- Reading statements to the end of the lexemes takes some of them, all if there is no error, and
on any list that starts with their tokens and the one after them it does the same, up to the
lines. -/
theorem readStatements_settled (ts : List Lexeme) : ∃ o w rest, ts = w ++ rest ∧
    (∀ φ rest', firstToken? rest' = firstToken? rest →
      readStatements (relineAll φ w ++ rest') = (Outcome.before rest' (o.map (reline φ))).1) ∧
    Fits SpellsStmts o w := by
  match ts with
  | [] =>
    refine ⟨.ok [], [], [], rfl, fun φ rest' hrest => ?_, .nil⟩
    cases rest' with
    | nil => rw [relineAll_nil, List.nil_append, readStatements]; rfl
    | cons l rest' => cases hrest
  | l :: us =>
    obtain ⟨o, u, mid, hts, hstable, hfits⟩ := readStatement_settled (l :: us)
    dsimp only at hstable
    have hne : ∀ φ mid', firstToken? mid' = firstToken? mid → relineAll φ u ++ mid' ≠ [] := by
      intro φ mid' hmid hnil
      have hfirst := firstToken?_reline_append hmid φ u
      rw [hnil, ← hts] at hfirst
      cases hfirst
    cases o with
    | error expected =>
      refine ⟨.error expected, u, mid, hts, fun φ mid' hmid => ?_, ?_⟩
      · rw [readStatements_of_ne_nil (hne φ mid' hmid), hstable φ mid' hmid]
        cases mid' <;> rfl
      · obtain ⟨v, s, hs⟩ := hfits
        refine ⟨v, [s], ?_⟩
        have hone := SpellsStmts.cons hs .nil .nil
        rwa [List.append_nil] at hone
    | ok s =>
      have hread : (readStatement (u ++ mid)).outcome = (.ok s, mid) := by
        have hid := hstable id mid rfl
        rwa [relineAll_id, Except.map, Lined.reline_id] at hid
      have hends := readStatement_endsBefore hread
      have hfewer : mid.length < (l :: us).length := by
        rw [hts]
        exact (Parsed.gives_of_outcome hread).fewer
      obtain ⟨o, v, rest, rfl, hstable', hfits'⟩ := readStatements_settled mid
      refine ⟨o.map (s :: ·), u ++ v, rest, by simp [hts], fun φ rest' hrest => ?_, ?_⟩
      · have hmid := firstToken?_reline_append hrest φ v
        rw [relineAll_append, List.append_assoc, readStatements_of_ne_nil (hne φ _ hmid),
          hstable φ _ hmid]
        show (readStatements (relineAll φ v ++ rest')).map (reline φ s :: ·) = _
        rw [hstable' φ rest' hrest]
        cases o with
        | ok ss => rfl
        | error => cases rest' <;> rfl
      · cases o with
        | ok ss => exact .cons hfits hends.of_append hfits'
        | error => exact Viable.cons hfits hends hfits'
termination_by ts.length
decreasing_by exact hfewer

/-- Lexemes that can be completed to the statements of a program can be completed to a program. -/
theorem Viable.exists_readProgram {w : List Lexeme} (h : Viable SpellsStmts w) :
    ∃ vs p, readProgram (w ++ vs) = .ok p := by
  obtain ⟨vs, ss, hss⟩ := h
  exact ⟨vs, ⟨ss⟩, by rw [readProgram, hss.readStatements_eq]; rfl⟩

/-- An error is where reading stopped: after lexemes that a program can start with, and whatever
follows the lexeme at fault. -/
theorem readProgram_eq_error {ts : List Lexeme} {cause : ParseError}
    (h : readProgram ts = .error cause) : ∃ expected w rest, ts = w ++ rest ∧
      Viable SpellsStmts w ∧ (Outcome.before rest (.error expected) : Outcome Program).1 =
        .error cause ∧ ∀ rest', firstToken? rest' = firstToken? rest →
          readProgram (w ++ rest') = (Outcome.before rest' (.error expected)).1 := by
  obtain ⟨o, w, rest, rfl, hstable, hfits⟩ := readStatements_settled ts
  have hread : ∀ rest', firstToken? rest' = firstToken? rest → readProgram (w ++ rest') =
      (Outcome.before rest' (o.map (reline id))).1.map Program.mk := by
    intro rest' hrest
    have hid := hstable id rest' hrest
    rw [relineAll_id] at hid
    rw [readProgram, hid]
  cases o with
  | ok ss =>
    rw [hread rest rfl] at h
    cases h
  | error expected =>
    have hstop : ∀ rest', firstToken? rest' = firstToken? rest →
        readProgram (w ++ rest') = (Outcome.before rest' (.error expected)).1 := by
      intro rest' hrest
      rw [hread rest' hrest]
      cases rest' <;> rfl
    exact ⟨expected, w, rest, rfl, hfits, (hstop rest rfl).symm.trans h, hstop⟩

/-- Errors are at the earliest possible lexeme. With the lexeme that an error names, no continuation
makes a program of the lexemes up to there, and all give the same error; without it, some
continuation does. So too where the error is that the lexemes end. -/
theorem readProgram_error_earliest (ts : List Lexeme)
    (hindex : ∀ (i : Nat) (l : Lexeme), ts[i]? = some l → l.index = i) :
    (∀ expected found, readProgram ts = .error (.unexpectedToken expected found) →
      ts[found.index]? = some found ∧
      (∀ us, readProgram (ts.take (found.index + 1) ++ us) =
        .error (.unexpectedToken expected found)) ∧
      ∃ vs p, readProgram (ts.take found.index ++ vs) = .ok p) ∧
    ∀ expected, readProgram ts = .error (.unexpectedEnd expected) →
      ∃ vs p, readProgram (ts ++ vs) = .ok p := by
  constructor
  · intro expected found h
    obtain ⟨_, w, rest, rfl, hviable, hcause, hstop⟩ := readProgram_eq_error h
    cases rest with
    | nil => cases hcause
    | cons l rest =>
      cases hcause
      have hi : found.index = w.length := hindex _ found (by simp)
      refine ⟨by simp [hi], fun us => ?_, ?_⟩
      · have htake : (w ++ found :: rest).take (found.index + 1) = w ++ [found] := by
          simp [hi, List.take_append, List.take_of_length_le]
        rw [htake, List.append_assoc]
        exact hstop ([found] ++ us) rfl
      · rw [hi, List.take_left]
        exact hviable.exists_readProgram
  · intro expected h
    obtain ⟨_, w, rest, rfl, hviable, hcause, -⟩ := readProgram_eq_error h
    cases rest with
    | nil => simpa using hviable.exists_readProgram
    | cons l rest => cases hcause

/-- `set x y`, where `y` stands in place of `=`. -/
theorem readProgram_error_earliest_set :
    let y : Lexeme := ⟨.identifier "y", 1, 2⟩
    let ts : List Lexeme := [⟨.reserved .set, 1, 0⟩, ⟨.identifier "x", 1, 1⟩, y]
    readProgram ts = .error (.unexpectedToken .setValue y) ∧
      (∀ us, readProgram (ts ++ us) = .error (.unexpectedToken .setValue y)) ∧
      ∃ vs p, readProgram (ts.take 2 ++ vs) = .ok p := by
  intro y ts
  have hread : readProgram ts = .error (.unexpectedToken .setValue y) := by
    simp [ts, readProgram, readStatements, readStatement, takeName, expect, take, Parsed.bind, y,
      Except.map]
  have hindex : ∀ (i : Nat) (l : Lexeme), ts[i]? = some l → l.index = i := by
    rintro (_ | _ | _ | i) l h <;> cases h <;> rfl
  exact ⟨hread, ((readProgram_error_earliest ts hindex).1 _ _ hread).2⟩

end TagScript
