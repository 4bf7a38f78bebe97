import TagScript.Proofs.RoundTrip

/-!
# Rendering token lists

`lex_renderTokens` is about the tokens of a source text. Here a list of tokens may come from
anywhere, as long as each of them is exact: no real, no trivia, no negative integer, and no
identifier that is not a name. Such a list, written with spaces between the tokens, is lexed to
itself, all on the first line (`lex_renderTokens_exact`). The line is the point of the escapes in a
text: no rendered token holds a line break.
-/

namespace TagScript

/-- A word that a program can use as a name: letters, digits and underscores, not starting with a
digit, that are no keyword. -/
structure IsName (name : String) : Prop where
  spelled : ∃ first more, name.toList = first :: more ∧ (first.isAlpha = true ∨ first = '_') ∧
    ∀ c ∈ more, c.isAlphanum = true ∨ c = '_'
  not_type : ∀ t : TypeWord, t.keyword ≠ name
  not_reserved : ∀ r : Reserved, r.word ≠ name
  not_bool : name ≠ "true" ∧ name ≠ "false"

/-- A token that its rendering spells exactly. -/
inductive Token.Exact : Token → Prop
  | integer {n : Int64} : 0 ≤ n → Exact (.number (.integer n))
  | text (content : String) : Exact (.text content)
  | identifier {name : String} : IsName name → Exact (.identifier name)
  | type (t : TypeWord) : Exact (.type t)
  | bool (b : Bool) : Exact (.bool b)
  | reserved (r : Reserved) : Exact (.reserved r)
  | operator (op : Operator) : Exact (.operator op)
  | mark (m : Mark) : Exact (.mark m)

/-! ### Exact tokens are tokens of a source text -/

theorem IsName.ofWord_eq {name : String} (h : IsName name) :
    Token.ofWord name = .identifier name := by
  have htype : TypeWord.ofKeyword? name = none := by
    cases ht : TypeWord.ofKeyword? name with
    | none => rfl
    | some t => exact absurd (Token.keyword_eq_of_ofKeyword? ht) (h.not_type t)
  have hreserved : Reserved.ofWord? name = none := by
    cases hr : Reserved.ofWord? name with
    | none => rfl
    | some r => exact absurd (Token.word_eq_of_ofWord? hr) (h.not_reserved r)
  simp [Token.ofWord, htype, hreserved, h.not_bool]

/-- A name is spelled as the pattern of identifiers asks. -/
theorem IsName.exists_word {name : String} (h : IsName name) :
    ∃ first w, name = String.ofList (first :: w) ∧ isWordStart first = true ∧
      ∀ c ∈ w, isWordPart c = true := by
  obtain ⟨first, w, hname, hfirst, hw⟩ := h.spelled
  refine ⟨first, w, ?_, ?_, fun c hc => ?_⟩
  · rw [← hname, String.ofList_toList]
  · simpa [isWordStart] using hfirst
  · simpa [isWordPart] using hw c hc

theorem exists_nat_of_nonneg {n : Int64} (h : 0 ≤ n) :
    ∃ k : Nat, k < 2 ^ 63 ∧ n = Int64.ofInt k := by
  have hnonneg : 0 ≤ n.toInt := Int64.le_iff_toInt_le.1 h
  have hlt := n.toInt_lt
  refine ⟨n.toInt.toNat, by omega, ?_⟩
  rw [Int.toNat_of_nonneg hnonneg, Int64.ofInt_toInt]

namespace Token.Exact

variable {t : Token}

/-- All exact tokens but texts are rendered as their patterns ask. -/
theorem text_or_pattern (h : t.Exact) :
    (∃ content, t = .text content) ∨ t.Pattern t.render.toList := by
  cases h with
  | integer hn =>
    obtain ⟨k, hk, rfl⟩ := exists_nat_of_nonneg hn
    rw [render, render_integer hk]
    exact .inr (pattern_integer hk)
  | text content => exact .inl ⟨content, rfl⟩
  | identifier hname =>
    obtain ⟨first, w, rfl, hfirst, hw⟩ := hname.exists_word
    rw [render, String.toList_ofList]
    exact .inr (.identifier hfirst hw)
  | type t => exact .inr (.type t)
  | bool b => exact .inr (.bool b)
  | reserved r => exact .inr (.reserved r)
  | operator op => exact .inr (.operator op)
  | mark m =>
    have hrender : (Token.mark m).render.toList = [m.char] := by cases m <;> rfl
    rw [hrender]
    exact .inr (.mark m)

theorem lexed (h : t.Exact) : t.Lexed := by
  rcases h.text_or_pattern with ⟨content, rfl⟩ | hpattern
  · exact .text content
  · refine hpattern.lexed ?_
    rintro name rfl
    cases h with
    | identifier hname => exact hname.ofWord_eq

theorem isInfinite_eq (h : t.Exact) : t.isInfinite = false := by
  cases h <;> rfl

end Token.Exact

/-! ### Line breaks -/

theorem lineBreak_not_mem_escapeChar (c : Char) : '\n' ∉ escapeChar c := by
  have hcontrol : ∀ n < 0xA0, '\n' ∉
      ['\\', 'u', '0', '0', Text.digitOf (n / 16), Text.digitOf (n % 16)] := by
    decide +kernel
  unfold escapeChar
  split
  · decide
  split
  · decide
  split
  · decide
  next hbreak =>
  split
  · decide
  split
  · decide
  split
  · next h =>
    simp only [Bool.or_eq_true, Bool.and_eq_true, decide_eq_true_eq] at h
    exact hcontrol c.toNat (by omega)
  · intro hmem
    obtain rfl := List.mem_singleton.1 hmem
    exact hbreak rfl

theorem lineBreak_not_mem_text (content : String) :
    '\n' ∉ (Token.text content).render.toList := by
  rw [Token.render, String.toList_ofList]
  simp only [List.cons_append, List.mem_cons, List.mem_append, List.mem_flatMap, List.not_mem_nil,
    or_false, not_or, not_exists, not_and]
  exact ⟨by decide, fun c _ => lineBreak_not_mem_escapeChar c, by decide⟩

theorem Token.Exact.lineBreak_not_mem {t : Token} (h : t.Exact) : '\n' ∉ t.render.toList := by
  rcases h.text_or_pattern with ⟨content, rfl⟩ | hpattern
  · exact lineBreak_not_mem_text content
  · intro hmem
    cases hpattern.visible _ hmem

theorem lineBreak_not_mem_renderTokens {tokens : List Token} (h : ∀ t ∈ tokens, t.Exact) :
    '\n' ∉ (renderTokens tokens).toList := by
  induction tokens with
  | nil => decide
  | cons t tokens ih =>
    obtain ⟨ht, htokens⟩ := List.forall_mem_cons.1 h
    cases tokens with
    | nil =>
      rw [renderTokens, List.map_singleton, String.intercalate_singleton]
      exact ht.lineBreak_not_mem
    | cons t' tokens =>
      rw [toList_renderTokens_cons, List.mem_append, List.mem_cons, not_or, not_or]
      exact ⟨ht.lineBreak_not_mem, by decide, ih htokens⟩

/-- Segments without a line break are all on the line that they start on. -/
theorem lexemesFrom_of_lineBreak_not_mem {segments : List Segment}
    (h : '\n' ∉ sourceOf segments) (line index : Nat) :
    lexemesFrom line index segments =
      (tokensOf segments).mapIdx fun i t => ⟨t, line, index + i⟩ := by
  induction segments generalizing index with
  | nil => rfl
  | cons s segments ih =>
    rw [sourceOf_cons, List.mem_append, not_or] at h
    have hbreaks : breaks s.text = 0 := List.count_eq_zero.2 h.1
    cases htrivia : s.token.isTrivia with
    | true =>
      rw [lexemesFrom, if_pos htrivia, hbreaks, Nat.add_zero, ih h.2, tokensOf_cons_trivia htrivia]
    | false =>
      rw [lexemesFrom, if_neg (by simp [htrivia]), hbreaks, Nat.add_zero, ih h.2,
        tokensOf_cons_token htrivia, List.mapIdx_cons]
      simp only [Nat.add_zero, Nat.add_comm, Nat.add_left_comm]

/-! ### Rendered lists -/

/-- A list of exact tokens, rendered with spaces between them, is lexed to that list, numbered from
zero and all on the first line. -/
theorem lex_renderTokens_exact {tokens : List Token} (h : ∀ t ∈ tokens, t.Exact) :
    lex (renderTokens tokens) = .ok (tokens.mapIdx fun i t => ⟨t, 1, i⟩) := by
  have hreread : tokens.flatMap reread = tokens :=
    (flatMap_reread_iff tokens).2 fun t ht => (h t ht).isInfinite_eq
  obtain ⟨segments, hsource, htokens, htiling⟩ := readsAs_renderTokens fun t ht => (h t ht).lexed
  have hbreak := lineBreak_not_mem_renderTokens h
  rw [← hsource] at hbreak
  rw [htiling.lex_eq hsource, lexemesFrom_of_lineBreak_not_mem hbreak, htokens, hreread]
  simp only [Nat.zero_add]

/-- Operators that would run together, the largest integer, a name that a keyword starts, and a text
with a quote, a line break, a control and the opening of a comment. -/
theorem lex_renderTokens_exact_mixed :
    lex (renderTokens [.operator .star, .operator .power, .number (.integer Int64.maxValue),
        .identifier "set_1", .text "\"\n\u0001/*"]) =
      .ok [⟨.operator .star, 1, 0⟩, ⟨.operator .power, 1, 1⟩,
        ⟨.number (.integer Int64.maxValue), 1, 2⟩, ⟨.identifier "set_1", 1, 3⟩,
        ⟨.text "\"\n\u0001/*", 1, 4⟩] := by
  have hname : IsName "set_1" := by
    refine ⟨⟨'s', ['e', 't', '_', '1'], rfl, .inl rfl, ?_⟩, ?_, ?_, by decide⟩
    · simp
    · intro t
      cases t <;> decide
    · intro r
      cases r <;> decide
  refine lex_renderTokens_exact ?_
  simp only [List.forall_mem_cons]
  exact ⟨.operator _, .operator _, .integer (by decide), .identifier hname, .text _, nofun⟩

end TagScript
