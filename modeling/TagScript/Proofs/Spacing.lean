import TagScript.Proofs.RoundTrip
import TagScript.Proofs.TextLiteral

/-!
# Trivia between tokens

Trivia may be put before every token of a source text. It has to start with a space: a comment put
right after a token could become part of what is read there, as in `a/` and `/* … */`.

`Tiling.before_space` says that the segments before a token are read as before when a space follows
them: no pattern holds a space, so none can reach over it. `lex_insert_trivia` draws the conclusion
for the lexemes on both sides and for the error, if there is one.
-/

namespace TagScript

/-- Text that is trivia wherever it stands: spaces, line comments with the line break that ends
them, and block comments with their closing mark. -/
inductive TriviaText : List Char → Prop
  | nil : TriviaText []
  | space {c : Char} {w : List Char} : IsSpace c → TriviaText w → TriviaText (c :: w)
  | lineComment {body w : List Char} : '\n' ∉ body → TriviaText w →
    TriviaText ('/' :: '/' :: (body ++ '\n' :: w))
  | blockComment {body w : List Char} : ¬ ['*', '/'] <:+: body ++ ['*'] → TriviaText w →
    TriviaText ('/' :: '*' :: (body ++ ['*', '/']) ++ w)

/-- Lexing `u ++ v` reads `u` in whole segments and finds something other than trivia at `v`. -/
structure TokenStartsAt (u v : List Char) : Prop where
  read : ∃ tokens, ReadsAs u tokens v
  ne_nil : v ≠ []
  not_trivia : ¬ StartsTrivia v

/-- The source text ends or goes on with a space. -/
def SpaceFollows (rest : List Char) : Prop :=
  ∀ c, rest.head? = some c → IsSpace c

/-! ### Segments before a space -/

/-- What holds no space ends before one. -/
theorem prefix_of_spaceFollows {w x rest : List Char} (hw : ∀ c ∈ w, ¬ IsSpace c)
    (hrest : SpaceFollows rest) (h : w <+: x ++ rest) : w <+: x := by
  rcases List.prefix_or_prefix_of_prefix h (List.prefix_append x rest) with hx | ⟨more, rfl⟩
  · exact hx
  rw [List.prefix_append_right_inj] at h
  cases more with
  | nil => rw [List.append_nil]
  | cons c more =>
    -- it would hold the space that follows `x`
    obtain ⟨tail, rfl⟩ := h
    exact absurd (hrest c rfl) (hw c (by simp))

/-- A comment that starts before a space starts before anything else too. -/
theorem StartsTrivia.of_spaceFollows {w rest : List Char} (hne : w ≠ [])
    (hrest : SpaceFollows rest) (h : StartsTrivia (w ++ rest)) (v : List Char) :
    StartsTrivia (w ++ v) := by
  have hcomment (mark : List Char) (hmark : mark.all isVisible = true)
      (hopens : mark <+: w ++ rest) : mark <+: w ++ v := by
    have hvisible : ∀ c ∈ mark, ¬ IsSpace c :=
      fun c hc => not_isSpace_of_isVisible (List.all_eq_true.1 hmark c hc)
    exact (prefix_of_spaceFollows hvisible hrest hopens).trans (List.prefix_append w v)
  generalize hcs : w ++ rest = cs at h
  cases h with
  | blank hblank =>
    obtain ⟨first, more, rfl⟩ := List.exists_cons_of_ne_nil hne
    obtain ⟨rfl, -⟩ := List.cons.inj hcs
    exact .blank hblank
  | @lineComment tail =>
    obtain ⟨more, heq⟩ := hcomment ['/', '/'] rfl ⟨tail, hcs.symm⟩
    rw [← heq]
    exact .lineComment
  | @blockComment tail =>
    obtain ⟨more, heq⟩ := hcomment ['/', '*'] rfl ⟨tail, hcs.symm⟩
    rw [← heq]
    exact .blockComment

section

variable {x v rest : List Char}

theorem LongestMatch.before_space {t : Token} {w : List Char} (hrest : SpaceFollows rest)
    (h : LongestMatch t w (x ++ v)) : LongestMatch t w (x ++ rest) := by
  refine ⟨h.pattern, fun t' w' hpattern hfront => h.longest t' w' hpattern ?_, h.keyword⟩
  rw [← List.append_assoc] at hfront ⊢
  exact (prefix_of_spaceFollows hpattern.not_space hrest hfront).trans (List.prefix_append _ v)

/-- Trivia before a token is complete. -/
theorem Trivia.Form.before_token {t : Trivia} {w : List Char} (hne : v ≠ [])
    (hv : ¬ StartsTrivia v) (h : t.Form w (x ++ v)) (rest : List Char) : t.Form w (x ++ rest) := by
  generalize hcs : x ++ v = cs at h
  cases h with
  | blank hblank hbreak => exact .blank hblank hbreak
  | lineBreak => exact .lineBreak
  | lineComment hbody hend =>
    refine .lineComment hbody ?_
    cases x with
    | nil =>
      -- only the line break that ends the comment could stand at `v`, and that is trivia
      obtain ⟨first, more, rfl⟩ := List.exists_cons_of_ne_nil hne
      obtain rfl := hend first (by rw [← hcs]; rfl)
      exact absurd (.blank (.inl rfl)) hv
    | cons c x =>
      intro c' hc'
      refine hend c' ?_
      rw [← hcs]
      exact hc'
  | closedComment hbody => exact .closedComment hbody
  | openComment => exact absurd (List.append_eq_nil_iff.1 hcs).2 hne

/-- A text that something follows is closed. -/
theorem SpellsText.before_token {content w : List Char} (hne : v ≠ [])
    (h : SpellsText content w (x ++ v)) (rest : List Char) : SpellsText content w rest := by
  generalize hcs : x ++ v = cs at h
  obtain ⟨hquote, hbody, hending⟩ := h
  cases hending with
  | closed => exact .intro hquote hbody .closed
  | unclosed => exact absurd (List.append_eq_nil_iff.1 hcs).2 hne
  | loneBackslash => exact absurd (List.append_eq_nil_iff.1 hcs).2 hne

theorem Segment.Fits.before_space {s : Segment} (hne : v ≠ []) (hv : ¬ StartsTrivia v)
    (hrest : SpaceFollows rest) (h : s.Fits (x ++ v)) : s.Fits (x ++ rest) := by
  obtain ⟨token, text⟩ := s
  rcases h.cases with ⟨t, rfl, hform⟩ | ⟨content, rfl, htext⟩ | ⟨hlongest, hstarts⟩
  · exact (hform.before_token hne hv rest).fits
  · have hfits := (htext.before_token hne (x ++ rest)).fits
    rwa [String.ofList_toList] at hfits
  · refine (hlongest.before_space hrest).fits fun hstarts' => hstarts ?_
    rw [← List.append_assoc] at hstarts' ⊢
    exact hstarts'.of_spaceFollows (List.append_ne_nil_of_left_ne_nil h.ne_nil x) hrest v

theorem Tiling.before_space {segments : List Segment} (hne : v ≠ []) (hv : ¬ StartsTrivia v)
    (hrest : SpaceFollows rest) (h : Tiling v segments) : Tiling rest segments := by
  induction segments with
  | nil => trivial
  | cons s segments ih =>
    obtain ⟨hfits, htiling⟩ := h
    exact ⟨hfits.before_space hne hv hrest, ih htiling⟩

end

/-! ### Trivia -/

theorem TriviaText.readsAs {w : List Char} (h : TriviaText w) (rest : List Char) :
    ReadsAs w [] rest := by
  induction h with
  | nil => exact .nil
  | @space c w hc _ ih =>
    have hspace : ReadsAs [c] [] (w ++ rest) := by
      by_cases hbreak : c = '\n'
      · rw [hbreak]
        exact .of_form .lineBreak
      · exact .of_form (.blank hc hbreak)
    exact hspace.append ih
  | @lineComment body w hbody _ ih =>
    have hcomment : ReadsAs ('/' :: '/' :: body) [] (('\n' :: w) ++ rest) :=
      .of_form (.lineComment hbody fun c hc => (Option.some.inj hc).symm)
    have hbreak : ReadsAs ['\n'] [] (w ++ rest) := .of_form .lineBreak
    exact hcomment.append (hbreak.append ih)
  | blockComment hbody _ ih => exact (ReadsAs.of_form (.closedComment hbody)).append ih

/-! ### Lexing with trivia put in -/

/-- Lexing the segments of a tiling and what follows them. -/
theorem lex_of_tiling {segments : List Segment} {rest : List Char} (h : Tiling rest segments) :
    lex (String.ofList (sourceOf segments ++ rest)) =
      (lexedAfter (breaks (sourceOf segments)) (tokensOf segments).length
        (lex (String.ofList rest))).map (lexemesFrom 1 0 segments ++ ·) := by
  rw [lex, lex, String.toList_ofList, String.toList_ofList, lexFrom_of_tiling h, ← lexFrom_add,
    Nat.add_comm 1, Nat.zero_add]
  rfl

/-- Trivia moves the lines on and does nothing else. -/
theorem TriviaText.lex_append {w : List Char} (h : TriviaText w) (rest : List Char) :
    lex (String.ofList (w ++ rest)) = lexedAfter (breaks w) 0 (lex (String.ofList rest)) := by
  obtain ⟨segments, rfl, htokens, htiling⟩ := h.readsAs rest
  have hnone : lexemesFrom 1 0 segments = [] := by
    rw [← List.map_eq_nil_iff, map_token_lexemesFrom, htokens]
  rw [lex_of_tiling htiling, htokens, hnone]
  cases lexedAfter _ _ (lex (String.ofList rest)) <;> rfl

/-- What stands before a token is lexed as on its own, and so is what follows, also behind a space
put there. -/
theorem TokenStartsAt.exists_lexemes {u v : List Char} (h : TokenStartsAt u v) :
    ∃ before, lex (String.ofList u) = .ok before ∧
      ∀ rest, rest = v ∨ SpaceFollows rest →
        lex (String.ofList (u ++ rest)) =
          (lexedAfter (breaks u) before.length (lex (String.ofList rest))).map (before ++ ·) := by
  obtain ⟨tokens, segments, rfl, -, htiling⟩ := h.read
  have hlength : (lexemesFrom 1 0 segments).length = (tokensOf segments).length := by
    rw [← map_token_lexemesFrom 1 0, List.length_map]
  have hspaced (rest : List Char) (hrest : SpaceFollows rest) : Tiling rest segments :=
    htiling.before_space h.ne_nil h.not_trivia hrest
  refine ⟨lexemesFrom 1 0 segments, (hspaced [] nofun).lex_eq String.toList_ofList.symm,
    fun rest hrest => ?_⟩
  rw [hlength]
  rcases hrest with rfl | hspace
  · exact lex_of_tiling htiling
  · exact lex_of_tiling (hspaced rest hspace)

theorem lexedAfter_comm (lines lines' lexemes lexemes' : Nat)
    (r : Except LexError (List Lexeme)) :
    lexedAfter lines lexemes (lexedAfter lines' lexemes' r) =
      lexedAfter lines' lexemes' (lexedAfter lines lexemes r) := by
  cases r with
  | ok lexed => simp [lexedAfter, Except.map, Except.mapError, Lexeme.after, Nat.add_left_comm]
  | error e =>
    cases e <;>
      simp [lexedAfter, Except.map, Except.mapError, LexError.after, Nat.add_left_comm]

/-- Trivia that starts with a space can be put before every token. The lexemes before it stay as
they are, and those after it, or the error there, move by its line breaks. -/
theorem lex_insert_trivia {u v w : List Char} (h : TokenStartsAt u v) (hw : TriviaText w)
    (hspace : ∃ c, w.head? = some c ∧ IsSpace c) :
    ∃ before, lex (String.ofList u) = .ok before ∧
      (∀ lexemes, lex (String.ofList (u ++ v)) = .ok lexemes →
        ∃ after, lexemes = before ++ after ∧
          lexedAfter (breaks u) before.length (lex (String.ofList v)) = .ok after ∧
          lex (String.ofList (u ++ w ++ v)) = .ok (before ++ after.map (·.after (breaks w) 0))) ∧
      (∀ e, lex (String.ofList (u ++ v)) = .error e →
        lex (String.ofList (u ++ w ++ v)) = .error (e.after (breaks w))) := by
  obtain ⟨before, hu, hrest⟩ := h.exists_lexemes
  have hfollows : SpaceFollows (w ++ v) := by
    obtain ⟨c, hc, hcspace⟩ := hspace
    intro c' hc'
    rw [List.head?_append, hc] at hc'
    obtain rfl := Option.some.inj hc'
    exact hcspace
  have hwithout := hrest v (.inl rfl)
  have hwith := hrest (w ++ v) (.inr hfollows)
  rw [hw.lex_append, lexedAfter_comm, ← List.append_assoc] at hwith
  refine ⟨before, hu, ?_⟩
  rw [hwithout, hwith]
  cases lexedAfter (breaks u) before.length (lex (String.ofList v)) with
  | ok after =>
    refine ⟨fun lexemes hlexemes => ?_, nofun⟩
    exact ⟨after, (Except.ok.inj hlexemes).symm, rfl, rfl⟩
  | error e =>
    refine ⟨nofun, fun e' he' => ?_⟩
    obtain rfl := Except.error.inj he'
    rfl

/-- A comment with a line break is put before a number and before a character that starts no token.
Without its space the comment would swallow the division. -/
theorem lex_insert_trivia_comment :
    lex "1/2" = .ok [⟨.number (.integer 1), 1, 0⟩, ⟨.operator .slash, 1, 1⟩,
        ⟨.number (.integer 2), 1, 2⟩] ∧
      lex "1/ /*\n*/2" = .ok [⟨.number (.integer 1), 1, 0⟩, ⟨.operator .slash, 1, 1⟩,
        ⟨.number (.integer 2), 2, 2⟩] ∧
      lex "1/@" = .error (.unexpectedCharacter '@' 1) ∧
      lex "1/ /*\n*/@" = .error (.unexpectedCharacter '@' 2) := by
  have hstarts (c : Char) (hc : isVisible c = true)
      (hone : scan '1' ['/', c] = .segment (.number (.ofDigits ['1'])) ['1'] ['/', c])
      (hslash : scan '/' [c] = .segment (.operator .slash) ['/'] [c]) :
      TokenStartsAt ['1', '/'] [c] := by
    have hfirst := scan_sound '1' ['/', c]
    have hsecond := scan_sound '/' [c]
    rw [hone] at hfirst
    rw [hslash] at hsecond
    refine ⟨⟨_, (ReadsAs.of_fits hfirst.2 rfl).append (.of_fits hsecond.2 rfl)⟩, nofun, ?_⟩
    intro htrivia
    cases htrivia with
    | blank hblank => exact not_isSpace_of_isVisible hc hblank
  have hspace : IsSpace ' ' := .inl rfl
  have hw : TriviaText [' ', '/', '*', '\n', '*', '/'] := by
    have hbody : ¬ ['*', '/'] <:+: ['\n'] ++ ['*'] := by decide
    exact .space hspace (.blockComment hbody .nil)
  obtain ⟨before, hu, hok, -⟩ := lex_insert_trivia (hstarts '2' rfl rfl rfl) hw ⟨' ', rfl, hspace⟩
  obtain ⟨-, -, -, herror⟩ := lex_insert_trivia (hstarts '@' rfl rfl rfl) hw ⟨' ', rfl, hspace⟩
  have hbefore : lex (String.ofList ['1', '/']) =
      .ok [⟨.number (.integer 1), 1, 0⟩, ⟨.operator .slash, 1, 1⟩] := by
    decide +kernel
  have hplain : lex "1/2" = .ok [⟨.number (.integer 1), 1, 0⟩, ⟨.operator .slash, 1, 1⟩,
      ⟨.number (.integer 2), 1, 2⟩] := by
    decide +kernel
  have hstray : lex "1/@" = .error (.unexpectedCharacter '@' 1) := by
    decide +kernel
  rw [hbefore] at hu
  obtain rfl := Except.ok.inj hu
  obtain ⟨after, hafter, -, hspaced⟩ := hok _ hplain
  obtain ⟨-, htail⟩ := List.cons.inj hafter
  obtain ⟨-, rfl⟩ := List.cons.inj htail
  exact ⟨hplain, hspaced, hstray, herror _ hstray⟩

end TagScript
