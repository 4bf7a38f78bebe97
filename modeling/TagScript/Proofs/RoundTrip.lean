import TagScript.Proofs.Numeral
import TagScript.Proofs.Tiling

/-!
# Rendered tokens lex again

The tokens of a source text, written with spaces between them, are a source text again. `reread`
says which tokens each of them gives there: itself, unless it carries an infinite real, which is
written as the word `inf`. So the tokens come back exactly if no numeral is too large for a real
(`lex_renderTokens`).
-/

namespace TagScript

open Float.Model Float.Model.UnpackedFloat

/-! ### What can follow a token -/

/-- A token ends here: at the end of the source or before a space. -/
def EndsToken (rest : List Char) : Prop :=
  ∀ c, rest.head? = some c → c = ' '

/-- What can stand between two tokens of a source text. -/
def IsSpace (c : Char) : Prop :=
  Text.isBlank c = true ∨ c = '\uFEFF'

def isVisible (c : Char) : Bool :=
  0x20 < c.toNat && c.toNat < 0x7F

theorem isVisible_iff_toNat {c : Char} :
    isVisible c = true ↔ 0x20 < c.toNat ∧ c.toNat < 0x7F := by
  rw [isVisible, Bool.and_eq_true, decide_eq_true_eq, decide_eq_true_eq]

theorem not_isSpace_of_isVisible {c : Char} (h : isVisible c = true) : ¬ IsSpace c := by
  rw [isVisible_iff_toNat] at h
  rintro (hblank | rfl)
  · simp only [Text.isBlank, Bool.or_eq_true, Bool.and_eq_true, decide_eq_true_eq, beq_iff_eq]
      at hblank
    omega
  · revert h
    decide

/-- All tokens but texts are spelled in visible characters. -/
theorem Token.Pattern.visible {t : Token} {w : List Char} (h : t.Pattern w) :
    ∀ c ∈ w, isVisible c = true := by
  have hdigit {c : Char} (h : c.isDigit = true) : isVisible c = true := by
    rw [isDigit_iff_toNat] at h
    rw [isVisible_iff_toNat]
    omega
  have hstart {c : Char} (h : isWordStart c = true) : isVisible c = true := by
    rw [isWordStart_iff_toNat] at h
    rw [isVisible_iff_toNat]
    omega
  have hpart {c : Char} (h : isWordPart c = true) : isVisible c = true := by
    rw [isWordPart, Char.isAlphanum, Bool.or_right_comm, ← isWordStart, Bool.or_eq_true] at h
    exact h.elim hstart hdigit
  cases h with
  | number _ hdigits => exact fun c hc => hdigit (hdigits c hc)
  | float _ hwhole hfraction =>
    exact List.forall_mem_append.2 ⟨fun c hc => hdigit (hwhole c hc),
      List.forall_mem_cons.2 ⟨rfl, fun c hc => hdigit (hfraction c hc)⟩⟩
  | identifier hfirst hparts =>
    exact List.forall_mem_cons.2 ⟨hstart hfirst, fun c hc => hpart (hparts c hc)⟩
  | type t => cases t <;> exact List.all_eq_true.1 rfl
  | bool b => cases b <;> exact List.all_eq_true.1 rfl
  | reserved r => cases r <;> exact List.all_eq_true.1 rfl
  | operator op => cases op <;> exact List.all_eq_true.1 rfl
  | mark m => cases m <;> exact List.all_eq_true.1 rfl

theorem Token.Pattern.not_space {t : Token} {w : List Char} (h : t.Pattern w) :
    ∀ c ∈ w, ¬ IsSpace c :=
  fun c hc => not_isSpace_of_isVisible (h.visible c hc)

/-- No token starts a comment, if what follows it does not. -/
theorem Token.Pattern.not_startsTrivia {t : Token} {w rest : List Char} (h : t.Pattern w)
    (hrest : ∀ c, rest.head? = some c → c ≠ '/' ∧ c ≠ '*') : ¬ StartsTrivia (w ++ rest) := by
  obtain ⟨first, more, rfl⟩ := List.exists_cons_of_ne_nil h.ne_nil
  have hcomment {second : Char} {tail : List Char}
      (heq : '/' :: second :: tail = first :: more ++ rest) : second ≠ '/' ∧ second ≠ '*' := by
    obtain ⟨rfl, htail⟩ := List.cons.inj heq
    have hmore : more = [] := by
      rcases h.of_symbol rfl rfl with ⟨op, -, hop⟩ | ⟨m, -, hm⟩
      · cases op <;> cases hop
        rfl
      · exact (List.cons.inj hm).2.symm
    subst hmore
    exact hrest second (congrArg List.head? htail.symm)
  intro hstarts
  generalize hcs : first :: more ++ rest = cs at hstarts
  cases hstarts with
  | blank hblank =>
    obtain ⟨rfl, -⟩ := List.cons.inj hcs
    exact h.not_space first (List.mem_cons_self ..) hblank
  | lineComment => exact (hcomment hcs.symm).1 rfl
  | blockComment => exact (hcomment hcs.symm).2 rfl

theorem LongestMatch.fits_before {t : Token} {w rest : List Char} (h : LongestMatch t w rest)
    (hrest : ∀ c, rest.head? = some c → c ≠ '/' ∧ c ≠ '*') : Segment.Fits ⟨t, w⟩ rest :=
  h.fits (h.pattern.not_startsTrivia hrest)

section

variable {rest : List Char} (hrest : EndsToken rest)

include hrest

theorem EndsToken.not_comment : ∀ c, rest.head? = some c → c ≠ '/' ∧ c ≠ '*' := by
  intro c hc
  rw [hrest c hc]
  decide

theorem Token.Pattern.fits_number {n : Number} {w : List Char}
    (h : Token.Pattern (.number n) w) : Segment.Fits ⟨.number n, w⟩ rest := by
  cases h with
  | number hne hw =>
    refine (longestMatch_number hne hw fun c hc => ?_).fits_before hrest.not_comment
    rw [hrest c hc]
    decide

theorem Token.Pattern.fits_float {x : Float} {w : List Char}
    (h : Token.Pattern (.float x) w) : Segment.Fits ⟨.float x, w⟩ rest := by
  cases h with
  | float hne hwhole hfraction =>
    refine (longestMatch_float hne hwhole hfraction fun c hc => ?_).fits_before hrest.not_comment
    rw [hrest c hc]
    decide

theorem fits_word {first : Char} {w : List Char} (hfirst : isWordStart first = true)
    (hw : ∀ c ∈ w, isWordPart c = true) :
    Segment.Fits ⟨.ofWord (String.ofList (first :: w)), first :: w⟩ rest := by
  refine (longestMatch_word hfirst hw fun c hc => ?_).fits_before hrest.not_comment
  rw [hrest c hc]
  decide

end

/-- A symbol wins unless what follows makes it longer. -/
theorem Token.Pattern.fits_symbol {t : Token} {first : Char} {w rest : List Char}
    (h : t.Pattern (first :: w)) (hdigit : first.isDigit = false)
    (hword : isWordStart first = false)
    (hrest : ∀ c, rest.head? = some c → c ≠ '/' ∧ c ≠ '*' ∧ c ≠ '=') :
    Segment.Fits ⟨t, first :: w⟩ rest := by
  refine (longestMatch_symbol h hdigit hword fun second hsecond op hop => ?_).fits_before
    fun c hc => ⟨(hrest c hc).1, (hrest c hc).2.1⟩
  have hpair := Operator.ofPair?_eq_some_iff.1 hop
  cases w with
  | nil =>
    obtain ⟨-, hstar, hequal⟩ := hrest second hsecond
    cases op <;> cases hpair <;> contradiction
  | cons c w =>
    obtain rfl := Option.some.inj hsecond
    rcases h.of_symbol hdigit hword with ⟨op', -, hop'⟩ | ⟨m, -, hm⟩
    · have hlength := op'.length_symbol
      rw [hop', List.length_cons, List.length_cons] at hlength
      rw [List.eq_nil_of_length_eq_zero (by omega : w.length = 0)]
    · cases hm

/-! ### Texts -/

theorem escapedChar?_control {c : Char} (h : c.toNat < 0xA0) :
    escapedChar? ['0', '0', Text.digitOf (c.toNat / 16), Text.digitOf (c.toNat % 16)] = some c := by
  have hread : ∀ n < 0xA0, escapedChar? ['0', '0', Text.digitOf (n / 16), Text.digitOf (n % 16)] =
      some (Char.ofNat n) := by
    decide +kernel
  rw [hread c.toNat h, Char.ofNat_toNat]

theorem spellsChar_escapeChar (c : Char) : SpellsChar '\x22' c (escapeChar c) := by
  unfold escapeChar
  split
  · next h =>
    obtain rfl := beq_iff_eq.1 h
    exact .letter (e := '\x22') (by decide) (by decide)
  next hquote =>
  split
  · next h =>
    obtain rfl := beq_iff_eq.1 h
    exact .letter (e := '\\') (by decide) (by decide)
  next hslash =>
  split
  · next h =>
    obtain rfl := beq_iff_eq.1 h
    exact .letter (e := 'n') (by decide) (by decide)
  split
  · next h =>
    obtain rfl := beq_iff_eq.1 h
    exact .letter (e := 't') (by decide) (by decide)
  split
  · next h =>
    obtain rfl := beq_iff_eq.1 h
    exact .letter (e := 'r') (by decide) (by decide)
  split
  · next h =>
    simp only [Bool.or_eq_true, Bool.and_eq_true, decide_eq_true_eq] at h
    exact .long (escapedChar?_control (by omega))
  · exact .raw (mt beq_iff_eq.2 hquote) (mt beq_iff_eq.2 hslash)

theorem spellsChars_escape (cs : List Char) : SpellsChars '\x22' cs (cs.flatMap escapeChar) := by
  induction cs with
  | nil => exact .nil
  | cons c cs ih => exact .cons (spellsChar_escapeChar c) ih

theorem fits_text (content : String) (rest : List Char) :
    Segment.Fits ⟨.text content, (Token.text content).render.toList⟩ rest := by
  have hrender : (Token.text content).render.toList =
      '\x22' :: (content.toList.flatMap escapeChar ++ ['\x22']) := by
    rw [Token.render, String.toList_ofList, List.cons_append]
  have hspells : SpellsText content.toList _ rest :=
    .intro (.inl rfl) (spellsChars_escape content.toList) .closed
  have hfits := hspells.fits
  rwa [String.ofList_toList, ← hrender] at hfits

/-! ### Tokens of a source text -/

/-- The tokens that a source text can hold. -/
inductive Token.Lexed : Token → Prop
  | number (w : List Char) : Lexed (.number (.ofDigits w))
  | float (d : Decimal) : Lexed (.float d.toFloat)
  | text (content : String) : Lexed (.text content)
  | word {first : Char} {w : List Char} : isWordStart first = true →
    (∀ c ∈ w, isWordPart c = true) → Lexed (.ofWord (String.ofList (first :: w)))
  | operator (op : Operator) : Lexed (.operator op)
  | mark (m : Mark) : Lexed (.mark m)

/-- A token with a pattern is found where it is spelled, unless it is an identifier spelled like a
keyword. -/
theorem Token.Pattern.lexed {t : Token} {w : List Char} (h : t.Pattern w)
    (hname : ∀ name, t = .identifier name → Token.ofWord name = t) : t.Lexed := by
  obtain ⟨first, more, rfl⟩ := List.exists_cons_of_ne_nil h.ne_nil
  cases hdigit : first.isDigit with
  | true =>
    rcases h.of_digit hdigit with ⟨rfl, -⟩ | ⟨whole, fraction, -, -, -, -, rfl⟩
    · exact .number _
    · exact .float _
  | false =>
  cases hword : isWordStart first with
  | true =>
    have hlexed := Token.Lexed.word hword (h.of_wordStart hword)
    rcases h.eq_ofWord hword with hsame | ⟨name, rfl⟩
    · rwa [← hsame] at hlexed
    · rwa [← h.name_eq, hname name rfl] at hlexed
  | false =>
    rcases h.of_symbol hdigit hword with ⟨op, rfl, -⟩ | ⟨m, rfl, -⟩
    · exact .operator op
    · exact .mark m

theorem LongestMatch.lexed {t : Token} {w rest : List Char} (h : LongestMatch t w rest) :
    t.Lexed := by
  refine h.pattern.lexed ?_
  rintro name rfl
  -- the word is no keyword, which would win, so it is this identifier
  have hpattern := h.pattern
  cases hpattern with
  | identifier hfirst hparts =>
    have hof := Token.pattern_ofWord hfirst hparts
    rcases h.keyword _ hof with hsame | ⟨name, hname⟩
    · exact hsame
    · rw [hname] at hof ⊢
      rw [hof.name_eq]

theorem lexed_of_tiling {segments : List Segment} {rest : List Char} (h : Tiling rest segments) :
    ∀ t ∈ tokensOf segments, t.Lexed := by
  induction segments with
  | nil => nofun
  | cons s segments ih =>
    obtain ⟨hfits, htiling⟩ := h
    rcases hfits.cases with ⟨t, htoken, -⟩ | ⟨content, htoken, -⟩ | ⟨hlongest, -⟩
    · rw [tokensOf_cons_trivia (by rw [htoken]; rfl)]
      exact ih htiling
    · rw [tokensOf_cons_token (by rw [htoken]; rfl), htoken]
      exact List.forall_mem_cons.2 ⟨.text content, ih htiling⟩
    · rw [tokensOf_cons_token hlongest.pattern.not_trivia]
      exact List.forall_mem_cons.2 ⟨hlongest.lexed, ih htiling⟩

/-! ### Source texts read as tokens -/

/-- The characters are read as the tokens where `rest` follows. -/
def ReadsAs (w : List Char) (tokens : List Token) (rest : List Char) : Prop :=
  ∃ segments, sourceOf segments = w ∧ tokensOf segments = tokens ∧ Tiling rest segments

namespace ReadsAs

variable {w w' rest : List Char} {tokens tokens' : List Token}

theorem nil : ReadsAs [] [] rest :=
  ⟨[], rfl, rfl, trivial⟩

theorem of_fits {t : Token} (h : Segment.Fits ⟨t, w⟩ rest) (ht : t.isTrivia = false) :
    ReadsAs w [t] rest :=
  ⟨[⟨t, w⟩], List.append_nil w, tokensOf_cons_token ht [], h, trivial⟩

theorem of_form {t : Trivia} (h : t.Form w rest) : ReadsAs w [] rest :=
  ⟨[⟨.trivia t, w⟩], List.append_nil w, tokensOf_cons_trivia rfl [], h.fits, trivial⟩

theorem append (h : ReadsAs w tokens (w' ++ rest)) (h' : ReadsAs w' tokens' rest) :
    ReadsAs (w ++ w') (tokens ++ tokens') rest := by
  obtain ⟨before, rfl, rfl, hbefore⟩ := h
  obtain ⟨after, rfl, rfl, hafter⟩ := h'
  exact ⟨before ++ after, sourceOf_append before after, tokensOf_append before after,
    hbefore.append hafter⟩

theorem lex_eq {source : String} (h : ReadsAs source.toList tokens []) :
    ∃ lexemes, lex source = .ok lexemes ∧ lexemes.map (·.token) = tokens := by
  obtain ⟨segments, hsource, htokens, htiling⟩ := h
  refine ⟨lexemesFrom 1 0 segments, htiling.lex_eq hsource, ?_⟩
  rw [map_token_lexemesFrom, htokens]

end ReadsAs

/-! ### Rendered tokens -/

/-- The tokens that a rendered token is read as. -/
def reread : Token → List Token
  | .number (.real x) => if x.isInf then [.identifier "inf"] else [.number (.real x)]
  | .float x =>
    if x.isInf then [.identifier "inf", .mark .dot, .number (.integer 0)] else [.float x]
  | t => [t]

theorem reread_of_finite {t : Token} (h : t.isInfinite = false) : reread t = [t] := by
  cases t with
  | number n =>
    cases n with
    | integer => rfl
    | real x => exact if_neg (ne_true_of_eq_false h)
  | float x => exact if_neg (ne_true_of_eq_false h)
  | _ => rfl

theorem reread_number {x : Float} (h : x.isInf = true) :
    reread (.number (.real x)) = [.identifier "inf"] :=
  if_pos h

theorem reread_float {x : Float} (h : x.isInf = true) :
    reread (.float x) = [.identifier "inf", .mark .dot, .number (.integer 0)] :=
  if_pos h

theorem render_ofWord (word : String) : (Token.ofWord word).render = word := by
  unfold Token.ofWord
  split
  · next t htype => exact Token.keyword_eq_of_ofKeyword? htype
  · next r _ hreserved => exact Token.word_eq_of_ofWord? hreserved
  · split
    · next h => exact (beq_iff_eq.1 h).symm
    · split
      · next h => exact (beq_iff_eq.1 h).symm
      · rfl

theorem not_number_ofWord (word : String) :
    (Token.ofWord word).isInfinite = false ∧ (Token.ofWord word).isTrivia = false := by
  unfold Token.ofWord
  split
  · exact ⟨rfl, rfl⟩
  · exact ⟨rfl, rfl⟩
  · split
    · exact ⟨rfl, rfl⟩
    · split <;> exact ⟨rfl, rfl⟩

theorem readsAs_render_of_fits {t : Token} {rest : List Char} (hinf : t.isInfinite = false)
    (htrivia : t.isTrivia = false) (hfits : Segment.Fits ⟨t, t.render.toList⟩ rest) :
    ReadsAs t.render.toList (reread t) rest := by
  rw [reread_of_finite hinf]
  exact .of_fits hfits htrivia

theorem readsAs_inf {rest : List Char} (hrest : ∀ c, rest.head? = some c → c = ' ' ∨ c = '.') :
    ReadsAs ['i', 'n', 'f'] [.identifier "inf"] rest := by
  have hlongest : LongestMatch (.ofWord "inf") ['i', 'n', 'f'] rest := by
    have hparts : ∀ c ∈ ['n', 'f'], isWordPart c = true := List.all_eq_true.1 rfl
    refine longestMatch_word rfl hparts fun c hc => ?_
    rcases hrest c hc with rfl | rfl <;> rfl
  refine .of_fits (hlongest.fits_before fun c hc => ?_) rfl
  rcases hrest c hc with rfl | rfl <;> decide

theorem readsAs_render_number (w : List Char) {rest : List Char} (hrest : EndsToken rest) :
    ReadsAs (Token.number (.ofDigits w)).render.toList (reread (.number (.ofDigits w))) rest := by
  cases hinf : (Token.number (.ofDigits w)).isInfinite with
  | false =>
    exact readsAs_render_of_fits hinf rfl ((pattern_number_render w hinf).fits_number hrest)
  | true =>
    have hle : 2 ^ 63 ≤ Nat.ofDigitChars 10 w 0 := by
      by_contra hlt
      rw [ofDigits_of_lt (Nat.lt_of_not_le hlt)] at hinf
      cases hinf
    rw [ofDigits_of_le hle] at hinf ⊢
    rw [reread_number hinf, Token.render, Number.render,
      write_infinity (Decimal.unsigned_toFloat _) hinf]
    exact readsAs_inf fun c hc => .inl (hrest c hc)

theorem readsAs_render_float (d : Decimal) {rest : List Char} (hrest : EndsToken rest) :
    ReadsAs (Token.float d.toFloat).render.toList (reread (.float d.toFloat)) rest := by
  cases hinf : d.toFloat.isInf with
  | false => exact readsAs_render_of_fits hinf rfl ((pattern_float_render d hinf).fits_float hrest)
  | true =>
    have hword : ReadsAs ['i', 'n', 'f'] [.identifier "inf"] ('.' :: '0' :: rest) :=
      readsAs_inf fun c hc => .inr (Option.some.inj hc).symm
    have hdot : ReadsAs ['.'] [.mark .dot] ('0' :: rest) := by
      refine .of_fits (Token.Pattern.fits_symbol (.mark .dot) rfl rfl fun c hc => ?_) rfl
      obtain rfl := Option.some.inj hc
      decide
    have hzero : ReadsAs ['0'] [.number (.integer 0)] rest :=
      .of_fits ((pattern_integer (n := 0) (by decide)).fits_number hrest) rfl
    rw [reread_float hinf, Token.render, write_infinity (Decimal.unsigned_toFloat _) hinf]
    exact hword.append (hdot.append hzero)

/-- A token of a source text, rendered, is read as `reread` says wherever a token can end. -/
theorem Token.Lexed.readsAs_render {t : Token} (h : t.Lexed) {rest : List Char}
    (hrest : EndsToken rest) : ReadsAs t.render.toList (reread t) rest := by
  have hsymbol : ∀ c, rest.head? = some c → c ≠ '/' ∧ c ≠ '*' ∧ c ≠ '=' := by
    intro c hc
    rw [hrest c hc]
    decide
  cases h with
  | number w => exact readsAs_render_number w hrest
  | float d => exact readsAs_render_float d hrest
  | text content => exact readsAs_render_of_fits rfl rfl (fits_text content rest)
  | @word first w hfirst hw =>
    obtain ⟨hinf, htrivia⟩ := not_number_ofWord (String.ofList (first :: w))
    refine readsAs_render_of_fits hinf htrivia ?_
    rw [render_ofWord, String.toList_ofList]
    exact fits_word hrest hfirst hw
  | operator op =>
    refine readsAs_render_of_fits rfl rfl ?_
    cases op <;> exact Token.Pattern.fits_symbol (.operator _) rfl rfl hsymbol
  | mark m =>
    refine readsAs_render_of_fits rfl rfl ?_
    cases m <;> exact Token.Pattern.fits_symbol (.mark _) rfl rfl hsymbol

/-! ### Rendered source texts -/

theorem toList_renderTokens_cons (t t' : Token) (tokens : List Token) :
    (renderTokens (t :: t' :: tokens)).toList =
      t.render.toList ++ ' ' :: (renderTokens (t' :: tokens)).toList := by
  rw [renderTokens, renderTokens, List.map_cons, List.map_cons, String.intercalate_cons_cons,
    String.toList_append, String.toList_append, List.append_assoc]
  rfl

theorem readsAs_renderTokens {tokens : List Token} (h : ∀ t ∈ tokens, t.Lexed) :
    ReadsAs (renderTokens tokens).toList (tokens.flatMap reread) [] := by
  induction tokens with
  | nil => exact .nil
  | cons t tokens ih =>
    obtain ⟨ht, htokens⟩ := List.forall_mem_cons.1 h
    cases tokens with
    | nil =>
      rw [renderTokens, List.map_singleton, String.intercalate_singleton, List.flatMap_singleton]
      exact ht.readsAs_render nofun
    | cons t' tokens =>
      have hspace {rest : List Char} : ReadsAs [' '] [] rest :=
        .of_form (.blank (.inl rfl) (by decide))
      rw [toList_renderTokens_cons, List.flatMap_cons]
      refine (ht.readsAs_render fun c hc => ?_).append (hspace.append (ih htokens))
      exact (Option.some.inj hc).symm

theorem lexed_of_lex {source : String} {lexemes : List Lexeme} (h : lex source = .ok lexemes) :
    ∀ t ∈ lexemes.map (·.token), t.Lexed := by
  obtain ⟨r, hlexes⟩ := exists_lexes source.toList
  have hr : r = .ok lexemes := by rw [← hlexes.lexFrom_eq]; exact h
  subst hr
  generalize source.toList = cs at hlexes
  cases hlexes with
  | done htiling hlocated =>
    rw [hlocated.tokens]
    exact lexed_of_tiling htiling

theorem isInfinite_of_mem_reread {t t' : Token} (h : t' ∈ reread t) : t'.isInfinite = false := by
  cases hinf : t.isInfinite with
  | false =>
    rw [reread_of_finite hinf, List.mem_singleton] at h
    rwa [h]
  | true =>
    cases t with
    | number n =>
      cases n with
      | integer => cases hinf
      | real x =>
        rw [reread_number hinf, List.mem_singleton] at h
        rw [h]
        rfl
    | float x =>
      rw [reread_float hinf] at h
      simp only [List.mem_cons, List.not_mem_nil, or_false] at h
      rcases h with rfl | rfl | rfl <;> rfl
    | _ => cases hinf

theorem flatMap_reread_iff (tokens : List Token) :
    tokens.flatMap reread = tokens ↔ ∀ t ∈ tokens, t.isInfinite = false := by
  constructor
  · intro h t ht
    rw [← h, List.mem_flatMap] at ht
    obtain ⟨t', -, hmem⟩ := ht
    exact isInfinite_of_mem_reread hmem
  · intro h
    induction tokens with
    | nil => rfl
    | cons t tokens ih =>
      obtain ⟨ht, htokens⟩ := List.forall_mem_cons.1 h
      rw [List.flatMap_cons, reread_of_finite ht, ih htokens, List.singleton_append]

/-- The tokens of a source text, rendered with spaces between them, always lex, and give the same
tokens exactly if none carries an infinite real. -/
theorem lex_renderTokens {source : String} {lexemes : List Lexeme} (h : lex source = .ok lexemes) :
    ∃ again, lex (renderTokens (lexemes.map (·.token))) = .ok again ∧
      (again.map (·.token) = lexemes.map (·.token) ↔
        ∀ t ∈ lexemes.map (·.token), t.isInfinite = false) := by
  obtain ⟨again, hagain, htokens⟩ := (readsAs_renderTokens (lexed_of_lex h)).lex_eq
  refine ⟨again, hagain, ?_⟩
  rw [htokens]
  exact flatMap_reread_iff _

theorem lex_renderTokens_float :
    lex "07.50 'a'" = .ok [⟨.float (Decimal.toFloat ⟨75, -1⟩), 1, 0⟩, ⟨.text "a", 1, 1⟩] ∧
      ∃ again, lex (renderTokens [.float (Decimal.toFloat ⟨75, -1⟩), .text "a"]) = .ok again ∧
        again.map (·.token) = [.float (Decimal.toFloat ⟨75, -1⟩), .text "a"] := by
  have hlex : lex "07.50 'a'" =
      .ok [⟨.float (Decimal.toFloat ⟨75, -1⟩), 1, 0⟩, ⟨.text "a", 1, 1⟩] := by
    decide +kernel
  obtain ⟨again, hagain, hiff⟩ := lex_renderTokens hlex
  exact ⟨hlex, again, hagain, hiff.2 (by decide +kernel)⟩

/-- A numeral too large for a real does not come back: it is rendered as a word. -/
theorem infinite_numeral_not_reread :
    ¬ ∀ (source : String) (lexemes : List Lexeme), lex source = .ok lexemes →
      ∃ again, lex (renderTokens (lexemes.map (·.token))) = .ok again ∧
        again.map (·.token) = lexemes.map (·.token) := by
  intro h
  have hlex : lex (String.ofList (List.replicate 309 '9')) =
      .ok [⟨.number (.real (Decimal.toFloat ⟨10 ^ 309 - 1, 0⟩)), 1, 0⟩] := by
    rw [lex, String.toList_ofList]
    decide +kernel
  have hword : lex (renderTokens [.number (.real (Decimal.toFloat ⟨10 ^ 309 - 1, 0⟩))]) =
      .ok [⟨.identifier "inf", 1, 0⟩] := by
    decide +kernel
  obtain ⟨again, hagain, hsame⟩ := h _ _ hlex
  rw [List.map_singleton, hword] at hagain
  obtain rfl := Except.ok.inj hagain
  cases hsame

end TagScript
