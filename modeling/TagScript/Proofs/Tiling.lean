import TagScript.Proofs.LineCount

/-!
# Lexing tiles the source

`Lexes` says what lexing a source text has to give, without the lexer: segments that fit, one after
the other, and the lexemes of those that are no trivia, each on the line where its segment ends; or
the segments before the place where none fits, and the error for what stands there.

`lexFrom_of_tiling` computes the lexemes of a tiling. As every source text has a tiling up to its
end or up to an error (`exists_tiling`), `lex_eq_iff` follows: lexing gives what `Lexes` says and
nothing else.
-/

namespace TagScript

/-- The source text that segments make up. -/
def sourceOf (segments : List Segment) : List Char :=
  segments.flatMap (·.text)

/-- Each segment fits before the segments after it and `rest`. -/
def Tiling (rest : List Char) : List Segment → Prop
  | [] => True
  | s :: segments => s.Fits (sourceOf segments ++ rest) ∧ Tiling rest segments

/-- The tokens of the segments that are no trivia. -/
def tokensOf (segments : List Segment) : List Token :=
  (segments.map (·.token)).filter fun t => !t.isTrivia

/-- The lexemes are the tokens of the segments in order. A lexeme carries its position among them
and the line that its segment ends on. -/
structure Located (segments : List Segment) (lexemes : List Lexeme) : Prop where
  tokens : lexemes.map (·.token) = tokensOf segments
  place : ∀ before s after, segments = before ++ s :: after → s.token.isTrivia = false →
    lexemes[(tokensOf before).length]? =
      some ⟨s.token, 1 + breaks (sourceOf (before ++ [s])), (tokensOf before).length⟩

/-- What lexing a source text gives. -/
inductive Lexes : List Char → Except LexError (List Lexeme) → Prop
  | done {segments : List Segment} {lexemes : List Lexeme} :
    Tiling [] segments → Located segments lexemes → Lexes (sourceOf segments) (.ok lexemes)
  | stray {segments : List Segment} {c : Char} {rest : List Char} :
    Tiling (c :: rest) segments → StartsNothing (c :: rest) →
      Lexes (sourceOf segments ++ c :: rest)
        (.error (.unexpectedCharacter c (1 + breaks (sourceOf segments))))
  /-- The text that holds the escape is read up to it. -/
  | badEscape {segments : List Segment} {quote : Char} {content body sequence rest : List Char} :
    Tiling (quote :: body ++ (sequence ++ rest)) segments → IsQuote quote →
      SpellsChars quote content body → BadEscape sequence rest →
        Lexes (sourceOf segments ++ (quote :: body ++ (sequence ++ rest)))
          (.error (.invalidEscape (String.ofList sequence)
            (1 + breaks (sourceOf segments ++ quote :: body))))

/-! ### Lists of segments -/

theorem sourceOf_cons (s : Segment) (segments : List Segment) :
    sourceOf (s :: segments) = s.text ++ sourceOf segments :=
  List.flatMap_cons

theorem tokensOf_cons_trivia {s : Segment} (h : s.token.isTrivia = true)
    (segments : List Segment) : tokensOf (s :: segments) = tokensOf segments := by
  simp [tokensOf, h]

theorem tokensOf_cons_token {s : Segment} (h : s.token.isTrivia = false)
    (segments : List Segment) : tokensOf (s :: segments) = s.token :: tokensOf segments := by
  simp [tokensOf, h]

theorem sourceOf_append (before after : List Segment) :
    sourceOf (before ++ after) = sourceOf before ++ sourceOf after :=
  List.flatMap_append

theorem tokensOf_append (before after : List Segment) :
    tokensOf (before ++ after) = tokensOf before ++ tokensOf after := by
  simp [tokensOf]

theorem Tiling.append {before after : List Segment} {rest : List Char}
    (hbefore : Tiling (sourceOf after ++ rest) before) (hafter : Tiling rest after) :
    Tiling rest (before ++ after) := by
  induction before with
  | nil => exact hafter
  | cons s before ih =>
    obtain ⟨hfits, htiling⟩ := hbefore
    rw [List.cons_append]
    refine ⟨?_, ih htiling⟩
    rwa [sourceOf_append, List.append_assoc]

/-- The lexemes of segments that start on the given line and at the given position. -/
def lexemesFrom (line index : Nat) : List Segment → List Lexeme
  | [] => []
  | s :: segments =>
    let line := line + breaks s.text
    if s.token.isTrivia then lexemesFrom line index segments
    else ⟨s.token, line, index⟩ :: lexemesFrom line (index + 1) segments

theorem map_token_lexemesFrom (line index : Nat) (segments : List Segment) :
    (lexemesFrom line index segments).map (·.token) = tokensOf segments := by
  induction segments generalizing line index with
  | nil => rfl
  | cons s segments ih =>
    cases htrivia : s.token.isTrivia with
    | true => rw [lexemesFrom, if_pos htrivia, ih, tokensOf_cons_trivia htrivia]
    | false =>
      rw [lexemesFrom, if_neg (by simp [htrivia]), List.map_cons, ih,
        tokensOf_cons_token htrivia]

theorem getElem?_lexemesFrom (line index : Nat) {s : Segment} (hs : s.token.isTrivia = false)
    (before after : List Segment) :
    (lexemesFrom line index (before ++ s :: after))[(tokensOf before).length]? =
      some ⟨s.token, line + breaks (sourceOf (before ++ [s])),
        index + (tokensOf before).length⟩ := by
  induction before generalizing line index with
  | nil =>
    have hlength : (tokensOf []).length = 0 := rfl
    have hsource : sourceOf ([] ++ [s]) = s.text := List.append_nil s.text
    rw [List.nil_append, lexemesFrom, if_neg (by simp [hs]), hlength, hsource]
    rfl
  | cons b before ih =>
    have hlines : line + breaks (sourceOf (b :: before ++ [s])) =
        line + breaks b.text + breaks (sourceOf (before ++ [s])) := by
      rw [List.cons_append, sourceOf_cons, breaks_append, Nat.add_assoc]
    cases htrivia : b.token.isTrivia with
    | true =>
      rw [List.cons_append, lexemesFrom, if_pos htrivia, tokensOf_cons_trivia htrivia, ih,
        hlines]
    | false =>
      rw [List.cons_append, lexemesFrom, if_neg (by simp [htrivia]), tokensOf_cons_token htrivia,
        List.length_cons, List.getElem?_cons_succ, ih, hlines, Nat.succ_add_eq_add_succ]

theorem located_lexemesFrom (segments : List Segment) :
    Located segments (lexemesFrom 1 0 segments) where
  tokens := map_token_lexemesFrom 1 0 segments
  place before s after hsegments hs := by
    rw [hsegments, getElem?_lexemesFrom 1 0 hs before after, Nat.zero_add]

/-- Every position is that of a segment. -/
theorem exists_segment {segments : List Segment} {k : Nat} (h : k < (tokensOf segments).length) :
    ∃ before s after, segments = before ++ s :: after ∧ s.token.isTrivia = false ∧
      (tokensOf before).length = k := by
  induction segments generalizing k with
  | nil => cases h
  | cons s segments ih =>
    cases htrivia : s.token.isTrivia with
    | true =>
      rw [tokensOf_cons_trivia htrivia] at h
      obtain ⟨before, t, after, rfl, ht, hk⟩ := ih h
      exact ⟨s :: before, t, after, rfl, ht, by rw [tokensOf_cons_trivia htrivia, hk]⟩
    | false =>
      cases k with
      | zero => exact ⟨[], s, segments, rfl, htrivia, rfl⟩
      | succ k =>
        rw [tokensOf_cons_token htrivia, List.length_cons] at h
        obtain ⟨before, t, after, rfl, ht, hk⟩ := ih (Nat.lt_of_succ_lt_succ h)
        exact ⟨s :: before, t, after, rfl, ht,
          by rw [tokensOf_cons_token htrivia, List.length_cons, hk]⟩

theorem Located.eq_lexemesFrom {segments : List Segment} {lexemes : List Lexeme}
    (h : Located segments lexemes) : lexemes = lexemesFrom 1 0 segments := by
  have hfrom := located_lexemesFrom segments
  have hlength (l : List Lexeme) (hl : Located segments l) :
      l.length = (tokensOf segments).length := by
    rw [← hl.tokens, List.length_map]
  refine List.ext_getElem? fun k => ?_
  by_cases hk : k < (tokensOf segments).length
  · obtain ⟨before, s, after, hsegments, hs, rfl⟩ := exists_segment hk
    rw [h.place before s after hsegments hs, hfrom.place before s after hsegments hs]
  · rw [List.getElem?_eq_none (by rw [hlength _ h]; omega),
      List.getElem?_eq_none (by rw [hlength _ hfrom]; omega)]

/-! ### The lexer -/

theorem lexFrom_of_segment {line index : Nat} {first : Char} {cs text rest : List Char}
    {token : Token} (h : scan first cs = .segment token text rest) :
    lexFrom line index (first :: cs) =
      if token.isTrivia then lexFrom (line + breaks text) index rest
      else (lexFrom (line + breaks text) (index + 1) rest).map
        (⟨token, line + breaks text, index⟩ :: ·) := by
  have hcounted := countedScan_eq_iff.2 ⟨h, rfl⟩
  rw [lexFrom]
  split <;> simp_all [Scan.text]

theorem lexFrom_of_stray {line index : Nat} {first c : Char} {cs : List Char}
    (h : scan first cs = .stray c) :
    lexFrom line index (first :: cs) = .error (.unexpectedCharacter c line) := by
  have hcounted := countedScan_eq_iff.2 ⟨h, rfl⟩
  rw [lexFrom]
  split <;> simp_all [Scan.text, breaks]

theorem lexFrom_of_badEscape {line index : Nat} {first : Char} {cs sequence before : List Char}
    (h : scan first cs = .badEscape sequence before) :
    lexFrom line index (first :: cs) =
      .error (.invalidEscape (String.ofList sequence) (line + breaks before)) := by
  have hcounted := countedScan_eq_iff.2 ⟨h, rfl⟩
  rw [lexFrom]
  split <;> simp_all [Scan.text]

/-- Lexing reads the segments of a tiling and goes on with what is left. -/
theorem lexFrom_of_tiling {segments : List Segment} {rest : List Char} (h : Tiling rest segments)
    (line index : Nat) :
    lexFrom line index (sourceOf segments ++ rest) =
      (lexFrom (line + breaks (sourceOf segments)) (index + (tokensOf segments).length) rest).map
        (lexemesFrom line index segments ++ ·) := by
  induction segments generalizing line index with
  | nil =>
    show lexFrom line index rest = (lexFrom line index rest).map ([] ++ ·)
    cases lexFrom line index rest <;> rfl
  | cons s segments ih =>
    obtain ⟨hfits, htiling⟩ := h
    obtain ⟨first, more, htext, hscan⟩ := scan_eq_of_fits hfits
    have hsource : sourceOf (s :: segments) ++ rest =
        first :: (more ++ (sourceOf segments ++ rest)) := by
      rw [sourceOf_cons, htext, List.append_assoc, List.cons_append]
    rw [hsource, lexFrom_of_segment hscan, sourceOf_cons, breaks_append, ← Nat.add_assoc]
    cases htrivia : s.token.isTrivia with
    | true =>
      rw [if_pos rfl, ih htiling, tokensOf_cons_trivia htrivia, lexemesFrom, if_pos htrivia]
    | false =>
      have hindex : index + 1 + (tokensOf segments).length =
          index + (tokensOf (s :: segments)).length := by
        rw [tokensOf_cons_token htrivia, List.length_cons]
        omega
      rw [if_neg (by simp), ih htiling, hindex, lexemesFrom, if_neg (by simp [htrivia])]
      cases lexFrom _ _ rest <;> rfl

/-- A source text is tiled to its end, or up to a place where nothing fits. -/
theorem exists_tiling (source : List Char) :
    ∃ segments rest, source = sourceOf segments ++ rest ∧ Tiling rest segments ∧
      (rest = [] ∨ StartsNothing rest ∧ rest ≠ [] ∨
        ∃ quote content body sequence tail, IsQuote quote ∧ SpellsChars quote content body ∧
          BadEscape sequence tail ∧ rest = quote :: body ++ (sequence ++ tail)) := by
  match source with
  | [] => exact ⟨[], [], rfl, trivial, .inl rfl⟩
  | first :: cs =>
    have hsound := scan_sound first cs
    match hscan : scan first cs with
    | .segment token text rest =>
      rw [hscan] at hsound
      obtain ⟨hsource, hfits⟩ := hsound
      obtain ⟨segments, rest', rfl, htiling, hend⟩ := exists_tiling rest
      refine ⟨⟨token, text⟩ :: segments, rest', ?_, ⟨hfits, htiling⟩, hend⟩
      rw [sourceOf_cons, List.append_assoc, hsource]
    | .stray c =>
      rw [hscan] at hsound
      exact ⟨[], first :: cs, rfl, trivial, .inr (.inl ⟨hsound.2, List.cons_ne_nil _ _⟩)⟩
    | .badEscape sequence before =>
      rw [hscan] at hsound
      obtain ⟨quote, content, body, tail, hquote, hbody, hbad, rfl, hsource⟩ := hsound
      exact ⟨[], first :: cs, rfl, trivial,
        .inr (.inr ⟨quote, content, body, sequence, tail, hquote, hbody, hbad, hsource.symm⟩)⟩
termination_by source.length
decreasing_by exact length_rest_lt_of_scan hscan

theorem Lexes.lexFrom_eq {source : List Char} {r : Except LexError (List Lexeme)}
    (h : Lexes source r) : lexFrom 1 0 source = r := by
  cases h with
  | @done segments lexemes htiling hlocated =>
    have hlex := lexFrom_of_tiling htiling 1 0
    rw [List.append_nil, lexFrom] at hlex
    rw [hlex, hlocated.eq_lexemesFrom]
    simp [Except.map]
  | stray htiling hstarts =>
    rw [lexFrom_of_tiling htiling, lexFrom_of_stray (scan_of_startsNothing hstarts)]
    rfl
  | badEscape htiling hquote hbody hbad =>
    rw [lexFrom_of_tiling htiling, List.cons_append,
      lexFrom_of_badEscape (scan_of_badEscape hquote hbody hbad), breaks_append, ← Nat.add_assoc]
    rfl

theorem exists_lexes (source : List Char) : ∃ r, Lexes source r := by
  obtain ⟨segments, rest, rfl, htiling, hend⟩ := exists_tiling source
  rcases hend with rfl | ⟨hstarts, hne⟩ |
    ⟨quote, content, body, sequence, tail, hquote, hbody, hbad, rfl⟩
  · rw [List.append_nil]
    exact ⟨_, .done htiling (located_lexemesFrom segments)⟩
  · obtain ⟨c, rest, rfl⟩ := List.exists_cons_of_ne_nil hne
    exact ⟨_, .stray htiling hstarts⟩
  · exact ⟨_, .badEscape htiling hquote hbody hbad⟩

theorem Tiling.lex_eq {source : String} {segments : List Segment} (h : Tiling [] segments)
    (hsource : sourceOf segments = source.toList) :
    lex source = .ok (lexemesFrom 1 0 segments) := by
  rw [lex, ← hsource]
  exact (Lexes.done h (located_lexemesFrom segments)).lexFrom_eq

/-- Lexing a source text gives the tokens of the segments that tile it, or the error for the first
place where no segment fits. -/
theorem lex_eq_iff (source : String) (r : Except LexError (List Lexeme)) :
    lex source = r ↔ Lexes source.toList r := by
  constructor
  · rintro rfl
    obtain ⟨r, hlexes⟩ := exists_lexes source.toList
    rw [lex, hlexes.lexFrom_eq]
    exact hlexes
  · intro hlexes
    exact hlexes.lexFrom_eq

end TagScript
