import TagScript.Proofs.Activation
import TagScript.Proofs.ExactTokens
import TagScript.Proofs.ReadStatement
import TagScript.Proofs.TextLiteral
import TagScript.Proofs.WordArithmetic

/-!
# Integer literals

What digits in a program mean, from the characters to the value. A sign is no part of a literal: a
minus before digits is an operator, which negates what they stand for. So the two sides of zero are
not alike. `integer_literal` says that digits stand for the integer that they spell, if a word holds
it, and that the same digits after a minus stand for its negation. Zero after a minus is a real, as
only reals have a negative zero, and so is the smallest word, whose digits alone no word holds.
-/

namespace TagScript

/-- The source text is a single expression, and wherever it is evaluated it has the value `v` and
changes nothing. -/
def Denotes (source : String) (v : Value) : Prop :=
  ∃ e line, Program.parse source = .ok ⟨[.expression e line]⟩ ∧ ∀ depth m,
    e.eval (invoke depth) m = .ok v m ∧ evalSource depth source m = .ok v m

/-! ### Digits -/

theorem numberIn_ofDigitChars {digits : List Char} (h : ∀ c ∈ digits, c.isDigit = true) :
    NumberIn 10 digits (Nat.ofDigitChars 10 digits 0) := by
  rw [← readDigits?_eq_some_iff_numberIn (by decide)]
  induction digits using List.reverseRecOn with
  | nil => rfl
  | append_singleton digits c ih =>
    rw [List.forall_mem_append, List.forall_mem_singleton] at h
    have hvalue : Text.digitValue? c = some (c.toNat - 48) := if_pos h.2
    have hlt : c.toNat - 48 < 10 := by
      have := (isDigit_iff_toNat.1 h.2).2
      omega
    rw [readDigits?_concat, ih h.1, Nat.ofDigitChars_append, hvalue]
    exact if_pos hlt

section

variable {digits : List Char} (hne : digits ≠ []) (hdigits : ∀ c ∈ digits, c.isDigit = true)

include hdigits

theorem lineBreak_not_mem_digits : '\n' ∉ digits :=
  fun hmem => absurd (hdigits _ hmem) (by decide)

include hne

theorem readsAs_digits : ReadsAs digits [.number (.ofDigits digits)] [] := by
  refine .of_fits (Token.Pattern.fits_number ?_ (.number hne hdigits)) rfl
  exact fun c hc => by cases hc

/-- No operator starts with a minus and goes on with a digit. -/
theorem readsAs_minus_digits :
    ReadsAs ('-' :: digits) [.operator .minus, .number (.ofDigits digits)] [] := by
  have hminus : Segment.Fits ⟨.operator .minus, ['-']⟩ digits := by
    refine Token.Pattern.fits_symbol (.operator .minus) rfl rfl fun c hc => ?_
    have hc := hdigits c (List.mem_of_mem_head? hc)
    refine ⟨?_, ?_, ?_⟩ <;> rintro rfl <;> cases hc
  refine ReadsAs.append (w := ['-']) (.of_fits ?_ rfl) (readsAs_digits hne hdigits)
  rwa [List.append_nil]

end

/-- A source text without a line break is lexed to its tokens, numbered from zero and all on the
first line. -/
theorem ReadsAs.lex_line {w : List Char} {tokens : List Token} (h : ReadsAs w tokens [])
    (hline : '\n' ∉ w) :
    lex (String.ofList w) = .ok (tokens.mapIdx fun i t => ⟨t, 1, i⟩) := by
  obtain ⟨segments, rfl, rfl, htiling⟩ := h
  rw [htiling.lex_eq String.toList_ofList.symm, lexemesFrom_of_lineBreak_not_mem hline]
  simp only [Nat.zero_add]

/-! ### Expressions -/

theorem denotes_of_spells {source : String} {e : Expr} {l : Lexeme} {w : List Lexeme} {v : Value}
    (hlex : lex source = .ok (l :: w)) (hspells : Spells 0 e (l :: w))
    (heval : ∀ depth m, e.eval (invoke depth) m = .ok v m) : Denotes source v := by
  have hprogram : readProgram (l :: w) = .ok ⟨[.expression e l.line]⟩ := by
    have hstmts := SpellsStmts.cons (.expression hspells) .nil .nil
    rw [List.append_nil] at hstmts
    exact map_eq_ok_iff.2 ⟨_, hstmts.readStatements_eq, rfl⟩
  have hfront (m : Machine) : readFront readExpression source m = .ok e m := by
    have hgives := hspells.readExpression_gives (u := []) .nil (.of_first (by simp))
    rw [List.append_nil] at hgives
    obtain ⟨_, hread⟩ := hgives
    rw [readFront, hlex]
    dsimp only
    rw [hread]
    rfl
  refine ⟨e, l.line, ?_, fun depth m => ⟨heval depth m, ?_⟩⟩
  · rw [Program.parse, hlex]
    dsimp only
    rw [hprogram]
  · rw [evalSource, bind_eq_of_ok (hfront m)]
    exact heval depth m

theorem eval_literal (call : Invoke) (value : Literal) (line : Nat) (m : Machine) :
    (Expr.literal value line).eval call m = .ok (.ofLiteral value) m := by
  rw [Expr.eval]
  rfl

theorem eval_unary_of_ok {call : Invoke} {op : Operator} {e : Expr} {m m' : Machine} {v w : Value}
    (he : e.eval call m = .ok v m') (hv : v.unary op = some w) (line : Nat) :
    (Expr.unary op e line).eval call m = .ok w m' := by
  rw [Expr.eval, bind_eq_of_ok he, hv]
  rfl

section

variable {digits : List Char} (hne : digits ≠ []) (hdigits : ∀ c ∈ digits, c.isDigit = true)

include hne hdigits

theorem lex_digits :
    lex (String.ofList digits) = .ok [⟨.number (.ofDigits digits), 1, 0⟩] :=
  (readsAs_digits hne hdigits).lex_line (lineBreak_not_mem_digits hdigits)

theorem lex_minus_digits : lex (String.ofList ('-' :: digits)) =
    .ok [⟨.operator .minus, 1, 0⟩, ⟨.number (.ofDigits digits), 1, 1⟩] := by
  refine (readsAs_minus_digits hne hdigits).lex_line ?_
  exact List.not_mem_cons_of_ne_of_not_mem (by decide) (lineBreak_not_mem_digits hdigits)

theorem denotes_digits :
    Denotes (String.ofList digits) (.ofLiteral (.ofNumber (.ofDigits digits))) :=
  denotes_of_spells (lex_digits hne hdigits) (.operand (.literal rfl)) fun _ m =>
    eval_literal _ _ _ m

theorem denotes_minus_digits {v : Value}
    (hv : (Value.ofLiteral (.ofNumber (.ofDigits digits))).unary .minus = some v) :
    Denotes (String.ofList ('-' :: digits)) v :=
  denotes_of_spells (lex_minus_digits hne hdigits) (.operand (.unary rfl rfl (.literal rfl)))
    fun _ m => eval_unary_of_ok (eval_literal _ _ _ m) hv _

end

/-! ### Values -/

/-- The negation of a word other than zero, if a word holds it. -/
theorem Value.unary_minus_integer {n r : Int64} (hn : n.toInt ≠ 0) (hr : r.toInt = -n.toInt) :
    unary .minus (integer n) = some (integer r) := by
  have hn : n ≠ 0 := fun h => hn (by rw [h]; rfl)
  rw [unary, if_neg hn, wordOf?_eq_some_iff.2 hr.symm]
  rfl

theorem exists_word_of_le {N : Nat} (h : N ≤ 2 ^ 63 - 1) :
    (∃ n : Int64, n.toInt = N) ∧ ∃ r : Int64, r.toInt = -N := by
  refine ⟨inWord_iff.1 ⟨?_, ?_⟩, inWord_iff.1 ⟨?_, ?_⟩⟩ <;> omega

section

variable {digits : List Char}

theorem ofDigits_eq_integer {n : Int64} (h : n.toInt = Nat.ofDigitChars 10 digits 0) :
    Number.ofDigits digits = .integer n := by
  have hlt := n.toInt_lt
  rw [ofDigits_of_lt (by omega), ← h, Int64.ofInt_toInt]

variable (hne : digits ≠ []) (hdigits : ∀ c ∈ digits, c.isDigit = true)

include hne hdigits

theorem denotes_integer {n : Int64} (hn : n.toInt = Nat.ofDigitChars 10 digits 0) :
    Denotes (String.ofList digits) (.integer n) := by
  have h := denotes_digits hne hdigits
  rwa [ofDigits_eq_integer hn] at h

theorem denotes_minus_integer (hpos : 1 ≤ Nat.ofDigitChars 10 digits 0)
    (hword : Nat.ofDigitChars 10 digits 0 ≤ 2 ^ 63 - 1) {r : Int64}
    (hr : r.toInt = -Nat.ofDigitChars 10 digits 0) :
    Denotes (String.ofList ('-' :: digits)) (.integer r) := by
  obtain ⟨⟨n, hn⟩, -⟩ := exists_word_of_le hword
  refine denotes_minus_digits hne hdigits ?_
  rw [ofDigits_eq_integer hn]
  exact Value.unary_minus_integer (by omega) (by rw [hr, hn])

end

/-- A word is written as digits, with a minus before them if it is below zero. -/
theorem denotes_display {n : Int64} (hn : n ≠ Int64.minValue) :
    Denotes (Value.integer n).display (.integer n) := by
  have hvalue (k : Nat) : Nat.ofDigitChars 10 (Nat.toDigits 10 k) 0 = k :=
    Nat.ofDigitChars_ten_toDigits
  rw [Value.display]
  cases hint : n.toInt with
  | ofNat k =>
    have htext : toString (Int.ofNat k) = String.ofList (Nat.toDigits 10 k) := rfl
    rw [htext]
    refine denotes_integer Nat.toDigits_ne_nil (Decimal.isDigit_toDigits k) ?_
    rw [hvalue, hint, Int.ofNat_eq_natCast]
  | negSucc k =>
    have htext : toString (Int.negSucc k) = String.ofList ('-' :: Nat.toDigits 10 (k + 1)) := by
      rw [← String.toList_inj, String.toList_ofList]
      have hrepr : toString (Int.negSucc k) = "-" ++ (k + 1).repr := rfl
      rw [hrepr, String.toList_append, Nat.toList_repr]
      rfl
    have hmin : -2 ^ 63 < n.toInt := by
      refine lt_of_le_of_ne n.le_toInt fun h => hn ?_
      rw [← Int64.toInt_inj, ← h]
      rfl
    rw [htext]
    refine denotes_minus_integer Nat.toDigits_ne_nil (Decimal.isDigit_toDigits (k + 1)) ?_ ?_ ?_
    all_goals
      rw [hvalue]
      omega

/-- Digits with any number of zeros before them, lexed, read and evaluated, alone and after a minus,
against the number that they make up; and words, written out and evaluated again. -/
theorem integer_literal :
    (∀ digits : List Char, digits ≠ [] → (∀ c ∈ digits, c.isDigit = true) →
      ∃ N, NumberIn 10 digits N ∧
        (∃ n, lex (String.ofList digits) = .ok [⟨.number n, 1, 0⟩]) ∧
        (N ≤ 2 ^ 63 - 1 →
          ∃ n : Int64, n.toInt = N ∧ Denotes (String.ofList digits) (.integer n)) ∧
        (2 ^ 63 - 1 < N → Denotes (String.ofList digits) (.real (realOfInt N))) ∧
        (1 ≤ N → N ≤ 2 ^ 63 - 1 →
          ∃ n : Int64, n.toInt = -N ∧ Denotes (String.ofList ('-' :: digits)) (.integer n)) ∧
        (N = 0 → Denotes (String.ofList ('-' :: digits)) (.real (-0.0))) ∧
        (2 ^ 63 - 1 < N → Denotes (String.ofList ('-' :: digits)) (.real (-realOfInt N)))) ∧
    ∀ n : Int64, n ≠ Int64.minValue → Denotes (Value.integer n).display (.integer n) := by
  refine ⟨fun digits hne hdigits => ?_, fun n hn => denotes_display hn⟩
  refine ⟨_, numberIn_ofDigitChars hdigits, ⟨_, lex_digits hne hdigits⟩, fun hword => ?_,
    fun hlarge => ?_, fun hpos hword => ?_, fun hzero => ?_, fun hlarge => ?_⟩
  · obtain ⟨⟨n, hn⟩, -⟩ := exists_word_of_le hword
    exact ⟨n, hn, denotes_integer hne hdigits hn⟩
  · have h := denotes_digits hne hdigits
    rw [ofDigits_of_le (by omega)] at h
    exact h
  · obtain ⟨-, r, hr⟩ := exists_word_of_le hword
    exact ⟨r, hr, denotes_minus_integer hne hdigits hpos hword hr⟩
  · refine denotes_minus_digits hne hdigits ?_
    rw [ofDigits_eq_integer (n := 0) (by rw [hzero]; rfl)]
    rfl
  · refine denotes_minus_digits hne hdigits ?_
    rw [ofDigits_of_le (by omega)]
    rfl

/-- The largest word with zeros before it, its negation, and what lies beyond on either side. -/
theorem integer_literal_border :
    (∃ n : Int64, n.toInt = -(2 ^ 63 - 1) ∧ Denotes "-009223372036854775807" (.integer n)) ∧
      Denotes "9223372036854775808" (.real (realOfInt (2 ^ 63))) ∧
      Denotes "-9223372036854775808" (.real (-realOfInt (2 ^ 63))) ∧
      Denotes "-00" (.real (-0.0)) ∧
      Denotes "-9223372036854775807" (.integer (Int64.minValue + 1)) := by
  obtain ⟨hall, hdisplay⟩ := integer_literal
  have hvalue {digits : List Char} {N n : Nat} (hN : NumberIn 10 digits N)
      (h : Text.readDigits? 10 digits = some n) : N = n :=
    Option.some.inj (((readDigits?_eq_some_iff_numberIn (by decide)).2 hN).symm.trans h)
  obtain ⟨N, hN, -, -, -, hword, -, -⟩ :=
    hall "009223372036854775807".toList (by decide) (List.all_eq_true.1 rfl)
  obtain ⟨L, hL, -, -, hlarge, -, -, hminus⟩ :=
    hall "9223372036854775808".toList (by decide) (List.all_eq_true.1 rfl)
  obtain ⟨Z, hZ, -, -, -, -, hzero, -⟩ := hall "00".toList (by decide) (List.all_eq_true.1 rfl)
  obtain rfl := hvalue (n := 2 ^ 63 - 1) hN (by decide)
  obtain rfl := hvalue (n := 2 ^ 63) hL (by decide)
  obtain rfl := hvalue (n := 0) hZ (by decide)
  refine ⟨hword (by decide) (by decide), hlarge (by decide), hminus (by decide), hzero rfl, ?_⟩
  exact hdisplay (Int64.minValue + 1) (by decide)

end TagScript
