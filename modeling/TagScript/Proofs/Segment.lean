import TagScript.Proofs.TokenPattern

/-!
# Segments of a source text

What stands at the front of a source text, said without the scanner. A `Segment` fits where it
stands if it is trivia in one of the forms of `Trivia.Form`, a text spelled as `SpellsText` says, or
a token that wins as `LongestMatch` says.

`scan_sound` says that the scanner finds a segment that fits, or what stands in the way of one, and
`scan_eq_of_fits` that it finds every segment that fits, so there is at most one.
-/

namespace TagScript

/-! ### Trivia -/

/-- Trivia of a kind stands before `rest`. -/
inductive Trivia.Form : Trivia → List Char → List Char → Prop
  | blank {c : Char} {rest : List Char} : Text.isBlank c = true ∨ c = '\uFEFF' → c ≠ '\n' →
    Form .blank [c] rest
  | lineBreak {rest : List Char} : Form .lineBreak ['\n'] rest
  | lineComment {w rest : List Char} : '\n' ∉ w → (∀ c, rest.head? = some c → c = '\n') →
    Form .lineComment ('/' :: '/' :: w) rest
  /-- The first closing mark after the opening ends the comment. -/
  | closedComment {w rest : List Char} : ¬ ['*', '/'] <:+: w ++ ['*'] →
    Form .blockComment ('/' :: '*' :: (w ++ ['*', '/'])) rest
  | openComment {w : List Char} : ¬ ['*', '/'] <:+: w → Form .blockComment ('/' :: '*' :: w) []

/-- A source text starts with what only trivia starts with. -/
inductive StartsTrivia : List Char → Prop
  | blank {c : Char} {rest : List Char} : Text.isBlank c = true ∨ c = '\uFEFF' →
    StartsTrivia (c :: rest)
  | lineComment {rest : List Char} : StartsTrivia ('/' :: '/' :: rest)
  | blockComment {rest : List Char} : StartsTrivia ('/' :: '*' :: rest)

/-! ### Texts -/

/-- A character as it can be spelled between the given quotes. -/
inductive SpellsChar (quote : Char) : Char → List Char → Prop
  | raw {c : Char} : c ≠ quote → c ≠ '\\' → SpellsChar quote c [c]
  | letter {e : Char} : e ≠ 'x' → e ≠ 'u' → SpellsChar quote (letterEscape e) ['\\', e]
  | short {c h₁ h₂ : Char} : escapedChar? [h₁, h₂] = some c →
    SpellsChar quote c ['\\', 'x', h₁, h₂]
  | long {c h₁ h₂ h₃ h₄ : Char} : escapedChar? [h₁, h₂, h₃, h₄] = some c →
    SpellsChar quote c ['\\', 'u', h₁, h₂, h₃, h₄]

/-- Characters spelled one after the other. -/
inductive SpellsChars (quote : Char) : List Char → List Char → Prop
  | nil : SpellsChars quote [] []
  | cons {c : Char} {cs w ws : List Char} : SpellsChar quote c w → SpellsChars quote cs ws →
    SpellsChars quote (c :: cs) (w ++ ws)

/-- What ends a text before `rest`: the quote, or the end of the source, where a lone backslash
stands for nothing. -/
inductive EndsText (quote : Char) : List Char → List Char → Prop
  | closed {rest : List Char} : EndsText quote [quote] rest
  | unclosed : EndsText quote [] []
  | loneBackslash : EndsText quote ['\\'] []

/-- A text with the given content, spelled with its quotes, before `rest`. -/
inductive SpellsText : List Char → List Char → List Char → Prop
  | intro {quote : Char} {content body ending rest : List Char} : IsQuote quote →
    SpellsChars quote content body → EndsText quote ending rest →
      SpellsText content (quote :: (body ++ ending)) rest

/-- An escape that names no character, as written, before `rest`. It has as many characters after
its letter as the letter asks for, or all that are left. -/
inductive BadEscape : List Char → List Char → Prop
  | refused {letter : Char} {digits rest : List Char} :
    letter = 'x' ∧ digits.length = 2 ∨ letter = 'u' ∧ digits.length = 4 →
      escapedChar? digits = none → BadEscape ('\\' :: letter :: digits) rest
  | cutShort {letter : Char} {digits : List Char} :
    letter = 'x' ∧ digits.length < 2 ∨ letter = 'u' ∧ digits.length < 4 →
      BadEscape ('\\' :: letter :: digits) []

/-! ### Segments -/

/-- A piece of a source text that is one token or trivia. -/
structure Segment where
  token : Token
  text : List Char

/-- The segment stands before `rest` where nothing else could stand. -/
structure Segment.Fits (s : Segment) (rest : List Char) : Prop where
  ne_nil : s.text ≠ []
  trivia_iff : s.token.isTrivia = true ↔ StartsTrivia (s.text ++ rest)
  form : ∀ t, s.token = .trivia t → t.Form s.text rest
  text : ∀ content, s.token = .text content → SpellsText content.toList s.text rest
  longest : s.token.kind ≠ .text → s.token.isTrivia = false →
    LongestMatch s.token s.text rest

/-- No trivia, no text and no token stands at the front of a source text. -/
structure StartsNothing (cs : List Char) : Prop where
  trivia : ¬ StartsTrivia cs
  quote : ∀ c, cs.head? = some c → ¬ IsQuote c
  token : ∀ t w, Token.Pattern t w → ¬ w <+: cs

/-- What fits is trivia, a text or the token that wins. -/
theorem Segment.Fits.cases {s : Segment} {rest : List Char} (h : s.Fits rest) :
    (∃ t, s.token = .trivia t ∧ t.Form s.text rest) ∨
      (∃ content, s.token = .text content ∧ SpellsText content.toList s.text rest) ∨
        LongestMatch s.token s.text rest ∧ ¬ StartsTrivia (s.text ++ rest) := by
  have hother (hkind : s.token.kind ≠ .text) (htrivia : s.token.isTrivia = false) :
      LongestMatch s.token s.text rest ∧ ¬ StartsTrivia (s.text ++ rest) := by
    refine ⟨h.longest hkind htrivia, ?_⟩
    rw [← h.trivia_iff, htrivia]
    nofun
  cases htoken : s.token with
  | trivia t => exact .inl ⟨t, rfl, h.form t htoken⟩
  | text content => exact .inr (.inl ⟨content, rfl, h.text content htoken⟩)
  | _ =>
    rw [htoken] at hother
    exact .inr (.inr (hother nofun rfl))

theorem LongestMatch.fits {t : Token} {w rest : List Char} (h : LongestMatch t w rest)
    (hstarts : ¬ StartsTrivia (w ++ rest)) : Segment.Fits ⟨t, w⟩ rest where
  ne_nil := h.pattern.ne_nil
  trivia_iff := by
    rw [h.pattern.not_trivia]
    exact ⟨nofun, fun hs => absurd hs hstarts⟩
  form := by
    rintro trivia rfl
    cases h.pattern
  text := by
    rintro content rfl
    cases h.pattern
  longest _ _ := h

/-! ### Texts -/

/-- What a scan of a text has found. -/
def TextScan.Sound (quote : Char) (cs : List Char) : TextScan → Prop
  | .done content text rest => ∃ body ending, text = body ++ ending ∧ text ++ rest = cs ∧
    SpellsChars quote content body ∧ EndsText quote ending rest
  | .badEscape sequence before => ∃ content rest, before ++ (sequence ++ rest) = cs ∧
    SpellsChars quote content before ∧ BadEscape sequence rest

theorem TextScan.Sound.push {quote c : Char} {w cs : List Char} {t : TextScan}
    (hw : SpellsChar quote c w) (h : t.Sound quote cs) : (t.push c w).Sound quote (w ++ cs) := by
  cases t with
  | done content text rest =>
    obtain ⟨body, ending, rfl, rfl, hbody, hending⟩ := h
    exact ⟨w ++ body, ending, by simp, by simp, .cons hw hbody, hending⟩
  | badEscape sequence before =>
    obtain ⟨content, rest, rfl, hbody, hbad⟩ := h
    exact ⟨c :: content, rest, by simp, .cons hw hbody, hbad⟩

theorem scanText_sound (quote : Char) (cs : List Char) :
    (scanText quote cs).Sound quote cs := by
  unfold scanText
  fun_induction countedText quote cs with
  | case1 => exact ⟨[], [], rfl, rfl, .nil, .unclosed⟩
  | case2 => exact ⟨[], _, rfl, rfl, .nil, .closed⟩
  | case3 c cs hquote hslash ih => exact .push (.raw hquote hslash) ih
  | case4 c _ hslash =>
    obtain rfl := Decidable.not_not.1 hslash
    exact ⟨[], _, rfl, rfl, .nil, .loneBackslash⟩
  | case5 c _ hslash h₁ h₂ rest e hescaped ih =>
    obtain rfl := Decidable.not_not.1 hslash
    exact .push (.short hescaped) ih
  | case6 c _ hslash h₁ h₂ rest hescaped =>
    obtain rfl := Decidable.not_not.1 hslash
    exact ⟨[], rest, rfl, .nil, .refused (.inl ⟨rfl, rfl⟩) hescaped⟩
  | case7 c _ hslash rest hshort =>
    obtain rfl := Decidable.not_not.1 hslash
    have hlength : rest.length < 2 := by
      rcases rest with _ | ⟨h₁, _ | ⟨h₂, more⟩⟩
      · simp
      · simp
      · exact absurd rfl (hshort h₁ h₂ more)
    exact ⟨[], [], by simp, .nil, .cutShort (.inl ⟨rfl, hlength⟩)⟩
  | case8 c _ hslash h₁ h₂ h₃ h₄ rest e hescaped ih =>
    obtain rfl := Decidable.not_not.1 hslash
    exact .push (.long hescaped) ih
  | case9 c _ hslash h₁ h₂ h₃ h₄ rest hescaped =>
    obtain rfl := Decidable.not_not.1 hslash
    exact ⟨[], rest, rfl, .nil, .refused (.inr ⟨rfl, rfl⟩) hescaped⟩
  | case10 c _ hslash rest hshort =>
    obtain rfl := Decidable.not_not.1 hslash
    have hlength : rest.length < 4 := by
      rcases rest with _ | ⟨h₁, _ | ⟨h₂, _ | ⟨h₃, _ | ⟨h₄, more⟩⟩⟩⟩
      · simp
      · simp
      · simp
      · simp
      · exact absurd rfl (hshort h₁ h₂ h₃ h₄ more)
    exact ⟨[], [], by simp, .nil, .cutShort (.inr ⟨rfl, hlength⟩)⟩
  | case11 c _ hslash e rest _ hx _ hu ih =>
    obtain rfl := Decidable.not_not.1 hslash
    exact .push (.letter hx hu) ih

section

variable {quote : Char} (hquote : quote ≠ '\\')

include hquote

/-- What follows a backslash is an escape, whatever the quote. -/
theorem countedText_backslash (cs : List Char) : countedText quote ('\\' :: cs) =
    match cs with
    | [] => (.done [] ['\\'] [], 0)
    | 'x' :: h₁ :: h₂ :: rest =>
      match escapedChar? [h₁, h₂] with
      | some e => TextScan.pushCounted e ['\\', 'x', h₁, h₂] 0 (countedText quote rest)
      | none => (.badEscape ['\\', 'x', h₁, h₂] [], 0)
    | 'x' :: rest => (.badEscape ('\\' :: 'x' :: rest) [], 0)
    | 'u' :: h₁ :: h₂ :: h₃ :: h₄ :: rest =>
      match escapedChar? [h₁, h₂, h₃, h₄] with
      | some e => TextScan.pushCounted e ['\\', 'u', h₁, h₂, h₃, h₄] 0 (countedText quote rest)
      | none => (.badEscape ['\\', 'u', h₁, h₂, h₃, h₄] [], 0)
    | 'u' :: rest => (.badEscape ('\\' :: 'u' :: rest) [], 0)
    | e :: rest =>
      TextScan.pushCounted (letterEscape e) ['\\', e] (lineStep e) (countedText quote rest) := by
  rw [countedText.eq_def]
  dsimp only
  rw [if_neg hquote.symm]
  exact if_neg (not_not_intro rfl)

theorem scanText_of_spellsChar {c : Char} {w : List Char} (h : SpellsChar quote c w)
    (cs : List Char) : scanText quote (w ++ cs) = (scanText quote cs).push c w := by
  cases h with
  | raw hne hslash =>
    rw [List.singleton_append, scanText, countedText.eq_def]
    dsimp only
    rw [if_neg hne, if_pos hslash]
    rfl
  | @letter e hx hu =>
    show (countedText quote ('\\' :: e :: cs)).1 = _
    rw [countedText_backslash hquote]
    split
    · next h => cases h
    · next h => exact absurd (List.cons.inj h).1 hx
    · next h => exact absurd (List.cons.inj h).1 hx
    · next h => exact absurd (List.cons.inj h).1 hu
    · next h => exact absurd (List.cons.inj h).1 hu
    · next h =>
      obtain ⟨rfl, rfl⟩ := List.cons.inj h
      rfl
  | @short c h₁ h₂ hescaped =>
    show (countedText quote ('\\' :: 'x' :: h₁ :: h₂ :: cs)).1 = _
    rw [countedText_backslash hquote]
    simp only [hescaped]
    rfl
  | @long c h₁ h₂ h₃ h₄ hescaped =>
    show (countedText quote ('\\' :: 'u' :: h₁ :: h₂ :: h₃ :: h₄ :: cs)).1 = _
    rw [countedText_backslash hquote]
    simp only [hescaped]
    rfl

theorem scanText_of_ends {ending rest : List Char} (h : EndsText quote ending rest) :
    scanText quote (ending ++ rest) = .done [] ending rest := by
  cases h with
  | closed =>
    rw [List.singleton_append, scanText, countedText.eq_def]
    dsimp only
    rw [if_pos rfl]
  | unclosed => rfl
  | loneBackslash => exact congrArg Prod.fst (countedText_backslash hquote [])

theorem scanText_of_spells {content body ending rest : List Char}
    (hbody : SpellsChars quote content body) (hending : EndsText quote ending rest) :
    scanText quote (body ++ (ending ++ rest)) = .done content (body ++ ending) rest := by
  induction hbody with
  | nil => exact scanText_of_ends hquote hending
  | @cons c cs w ws hw _ ih =>
    rw [List.append_assoc, scanText_of_spellsChar hquote hw, ih, TextScan.push, List.append_assoc]

theorem scanText_escape {sequence rest : List Char} (h : BadEscape sequence rest) :
    scanText quote (sequence ++ rest) = .badEscape sequence [] := by
  cases h with
  | @refused letter digits rest hdigits hescaped =>
    rw [List.cons_append, scanText, countedText_backslash hquote]
    rcases hdigits with ⟨rfl, hlength⟩ | ⟨rfl, hlength⟩
    · match digits, hlength with
      | [h₁, h₂], _ => simp only [List.cons_append, List.nil_append, hescaped]
    · match digits, hlength with
      | [h₁, h₂, h₃, h₄], _ => simp only [List.cons_append, List.nil_append, hescaped]
  | @cutShort letter digits hdigits =>
    rw [List.append_nil, scanText, countedText_backslash hquote]
    rcases hdigits with ⟨rfl, hlength⟩ | ⟨rfl, hlength⟩
    · match digits, hlength with
      | [], _ | [_], _ => rfl
    · match digits, hlength with
      | [], _ | [_], _ | [_, _], _ | [_, _, _], _ => rfl

theorem scanText_of_badEscape {content body sequence rest : List Char}
    (hbody : SpellsChars quote content body) (hbad : BadEscape sequence rest) :
    scanText quote (body ++ (sequence ++ rest)) = .badEscape sequence body := by
  induction hbody with
  | nil => exact scanText_escape hquote hbad
  | @cons c cs w ws hw _ ih =>
    rw [List.append_assoc, scanText_of_spellsChar hquote hw, ih, TextScan.push]

end

theorem IsQuote.ne_backslash {quote : Char} (h : IsQuote quote) : quote ≠ '\\' := by
  rcases h with rfl | rfl <;> decide

/-! ### Comments -/

theorem closingMark_infix_cons {c : Char} {cs : List Char} :
    ['*', '/'] <:+: c :: cs ↔ (∃ rest, c = '*' ∧ cs = '/' :: rest) ∨ ['*', '/'] <:+: cs := by
  rw [List.infix_cons_iff, List.cons_prefix_cons]
  constructor
  · rintro (⟨rfl, rest, rfl⟩ | h)
    · exact .inl ⟨rest, rfl, rfl⟩
    · exact .inr h
  · rintro (⟨rest, rfl, rfl⟩ | h)
    · exact .inl ⟨rfl, List.prefix_append _ _⟩
    · exact .inr h

theorem blockComment_closed {w : List Char} (h : ¬ ['*', '/'] <:+: w ++ ['*']) (rest : List Char) :
    blockComment (w ++ '*' :: '/' :: rest) = (w ++ ['*', '/'], rest) := by
  induction w with
  | nil => rfl
  | cons c cs ih =>
    rw [List.cons_append, closingMark_infix_cons, not_or] at h
    rw [List.cons_append, blockComment.eq_3, ih h.2]
    · rfl
    · rintro rest' rfl hcs
      refine h.1 ?_
      cases cs with
      | nil => cases hcs
      | cons d ds =>
        obtain ⟨rfl, -⟩ := List.cons.inj hcs
        exact ⟨_, rfl, rfl⟩

theorem blockComment_open {w : List Char} (h : ¬ ['*', '/'] <:+: w) :
    blockComment w = (w, []) := by
  induction w with
  | nil => rfl
  | cons c cs ih =>
    rw [closingMark_infix_cons, not_or] at h
    rw [blockComment.eq_3, ih h.2]
    rintro rest rfl rfl
    exact h.1 ⟨rest, rfl, rfl⟩

/-- A block comment ends with the first closing mark or with the source. -/
theorem blockComment_cases (cs : List Char) :
    (∃ w, ¬ ['*', '/'] <:+: w ++ ['*'] ∧ (blockComment cs).1 = w ++ ['*', '/']) ∨
      ¬ ['*', '/'] <:+: cs ∧ blockComment cs = (cs, []) := by
  fun_induction blockComment cs with
  | case1 => exact .inr ⟨by simp, rfl⟩
  | case2 rest => exact .inl ⟨[], by simp [List.infix_cons_iff], rfl⟩
  | case3 c cs hmark ih =>
    have hparts := blockComment_append cs
    rcases ih with ⟨w, hw, htext⟩ | ⟨hcs, heq⟩
    · refine .inl ⟨c :: w, ?_, by rw [htext]; rfl⟩
      rw [List.cons_append, closingMark_infix_cons, not_or]
      refine ⟨?_, hw⟩
      rintro ⟨more, hc, hw'⟩
      -- a mark that starts with `c` would be in the source too
      cases w with
      | nil => cases hw'
      | cons d w =>
        obtain ⟨rfl, -⟩ := List.cons.inj hw'
        rw [htext] at hparts
        exact hmark _ hc hparts.symm
    · refine .inr ⟨?_, by rw [heq]⟩
      rw [closingMark_infix_cons, not_or]
      refine ⟨?_, hcs⟩
      rintro ⟨more, hc, hcs'⟩
      exact hmark more hc hcs'

theorem blockComment_form (cs : List Char) :
    Trivia.Form .blockComment ('/' :: '*' :: (blockComment cs).1) (blockComment cs).2 := by
  rcases blockComment_cases cs with ⟨w, hw, htext⟩ | ⟨hcs, heq⟩
  · rw [htext]
    exact .closedComment hw
  · rw [heq]
    exact .openComment hcs

theorem lineComment_form (cs : List Char) :
    Trivia.Form .lineComment ('/' :: '/' :: cs.takeWhile (· != '\n'))
      (cs.dropWhile (· != '\n')) := by
  refine .lineComment (fun hmem => ?_) fun c hc => ?_
  · simpa using forall_mem_takeWhile (· != '\n') cs _ hmem
  · have hnot := List.head?_dropWhile_not (· != '\n') cs
    rw [hc] at hnot
    simpa using hnot

/-! ### The scanner finds what fits -/

/-- What a scan has found is there. -/
def Scan.Sound (cs : List Char) : Scan → Prop
  | .segment token text rest => text ++ rest = cs ∧ Segment.Fits ⟨token, text⟩ rest
  | .stray c => cs.head? = some c ∧ StartsNothing cs
  | .badEscape sequence before => ∃ quote content body rest, IsQuote quote ∧
    SpellsChars quote content body ∧ BadEscape sequence rest ∧ before = quote :: body ∧
      before ++ (sequence ++ rest) = cs

theorem Trivia.Form.startsTrivia {t : Trivia} {w rest : List Char} (h : t.Form w rest) :
    StartsTrivia (w ++ rest) := by
  cases h with
  | blank hblank => exact .blank hblank
  | lineBreak => exact .blank (.inl rfl)
  | lineComment => exact .lineComment
  | closedComment => exact .blockComment
  | openComment => exact .blockComment

theorem Trivia.Form.ne_nil {t : Trivia} {w rest : List Char} (h : t.Form w rest) : w ≠ [] := by
  cases h <;> exact List.cons_ne_nil _ _

theorem Trivia.Form.fits {t : Trivia} {w rest : List Char} (h : t.Form w rest) :
    Segment.Fits ⟨.trivia t, w⟩ rest where
  ne_nil := h.ne_nil
  trivia_iff := ⟨fun _ => h.startsTrivia, fun _ => rfl⟩
  form t' ht := by
    cases ht
    exact h
  text := nofun
  longest := nofun

theorem not_startsTrivia_quote {quote : Char} (h : IsQuote quote) (cs : List Char) :
    ¬ StartsTrivia (quote :: cs) := by
  intro hstarts
  rcases h with rfl | rfl
  all_goals
    cases hstarts with
    | blank hblank => rcases hblank with hblank | hblank <;> cases hblank

theorem SpellsText.fits {content w rest : List Char} (h : SpellsText content w rest) :
    Segment.Fits ⟨.text (String.ofList content), w⟩ rest where
  ne_nil := by
    cases h
    exact List.cons_ne_nil _ _
  trivia_iff := by
    obtain ⟨hquote, -, -⟩ := h
    exact ⟨nofun, fun hstarts => absurd hstarts (not_startsTrivia_quote hquote _)⟩
  form := nofun
  text content' hcontent := by
    cases hcontent
    rwa [String.toList_ofList]
  longest := nofun

theorem isDigit_of_head?_dropWhile {cs : List Char} {c : Char}
    (h : (cs.dropWhile Char.isDigit).head? = some c) : c.isDigit = false := by
  have hnot := List.head?_dropWhile_not Char.isDigit cs
  rw [h] at hnot
  simpa using hnot

theorem scanNumber_sound {first : Char} {cs : List Char} (hdigit : first.isDigit = true)
    (hstarts : ¬ StartsTrivia (first :: cs)) : (scanNumber first cs).Sound (first :: cs) := by
  have hwhole : ∀ c ∈ first :: cs.takeWhile Char.isDigit, c.isDigit = true :=
    List.forall_mem_cons.2 ⟨hdigit, forall_mem_takeWhile _ _⟩
  have hcs : cs.takeWhile Char.isDigit ++ cs.dropWhile Char.isDigit = cs :=
    List.takeWhile_append_dropWhile
  unfold scanNumber
  extract_lets whole
  split
  · next rest hrest =>
    have hsource : (whole ++ '.' :: rest.takeWhile Char.isDigit) ++ rest.dropWhile Char.isDigit =
        first :: cs := by
      rw [List.append_assoc, List.cons_append, List.cons_append, List.takeWhile_append_dropWhile,
        ← hrest, hcs]
    refine ⟨hsource, (longestMatch_float (List.cons_ne_nil _ _) hwhole (forall_mem_takeWhile _ _)
      fun c hc => isDigit_of_head?_dropWhile hc).fits ?_⟩
    rwa [hsource]
  · next hpoint =>
    have hsource : whole ++ cs.dropWhile Char.isDigit = first :: cs := congrArg (first :: ·) hcs
    refine ⟨hsource, (longestMatch_number (List.cons_ne_nil _ _) hwhole fun c hc => ?_).fits ?_⟩
    · refine ⟨isDigit_of_head?_dropWhile hc, ?_⟩
      rintro rfl
      obtain ⟨rest, hrest⟩ := List.head?_eq_some_iff.1 hc
      exact hpoint rest hrest
    · rwa [hsource]

theorem scanWord_sound {first : Char} {cs : List Char} (hword : isWordStart first = true)
    (hstarts : ¬ StartsTrivia (first :: cs)) : (scanWord first cs).Sound (first :: cs) := by
  have hsource : first :: cs.takeWhile isWordPart ++ cs.dropWhile isWordPart = first :: cs :=
    congrArg (first :: ·) List.takeWhile_append_dropWhile
  refine ⟨hsource, (longestMatch_word hword (forall_mem_takeWhile _ _) fun c hc => ?_).fits ?_⟩
  · have hnot := List.head?_dropWhile_not isWordPart cs
    rw [hc] at hnot
    simpa using hnot
  · rwa [hsource]

section

variable {first : Char} {cs : List Char} (hdigit : first.isDigit = false)
  (hword : isWordStart first = false) (hquote : ¬ IsQuote first)
  (hstarts : ¬ StartsTrivia (first :: cs))

include hdigit hword hquote hstarts

/-- Where no two characters spell an operator, the first one decides. -/
theorem scanSymbol_single_sound
    (hpair : ∀ second, cs.head? = some second → Operator.ofPair? first second = none) :
    (scanSymbol.single first cs).Sound (first :: cs) := by
  have hlongest {t : Token} (ht : t.Pattern [first]) : LongestMatch t [first] cs := by
    refine longestMatch_symbol ht hdigit hword fun second hsecond op hop => ?_
    rw [hpair second hsecond] at hop
    cases hop
  unfold scanSymbol.single
  split
  · next op hop =>
    have hpattern : Token.Pattern (.operator op) [first] :=
      Operator.ofChar?_eq_some_iff.1 hop ▸ .operator op
    exact ⟨rfl, (hlongest hpattern).fits hstarts⟩
  · next m _ hm =>
    have hpattern : Token.Pattern (.mark m) [first] := Mark.ofChar?_eq_some_iff.1 hm ▸ .mark m
    exact ⟨rfl, (hlongest hpattern).fits hstarts⟩
  · next hop hm =>
    refine ⟨rfl, hstarts, fun c hc => Option.some.inj hc ▸ hquote, fun t w hpattern hprefix => ?_⟩
    obtain ⟨c, more, rfl⟩ := List.exists_cons_of_ne_nil hpattern.ne_nil
    obtain ⟨rest, heq⟩ := hprefix
    obtain ⟨rfl, hcs⟩ := List.cons.inj heq
    rcases hpattern.of_symbol hdigit hword with ⟨op, -, hsymbol⟩ | ⟨m, -, hmark⟩
    · match more with
      | [] =>
        rw [Operator.ofChar?_eq_some_iff.2 hsymbol] at hop
        cases hop
      | [second] =>
        have hnone := hpair second (congrArg List.head? hcs.symm)
        rw [Operator.ofPair?_eq_some_iff.2 hsymbol] at hnone
        cases hnone
      | _ :: _ :: _ =>
        have hlength := op.length_symbol
        rw [hsymbol] at hlength
        simp at hlength
    · rw [Mark.ofChar?_eq_some_iff.2 (List.cons.inj hmark).1] at hm
      cases hm

theorem scanSymbol_sound : (scanSymbol first cs).Sound (first :: cs) := by
  have hsingle := scanSymbol_single_sound hdigit hword hquote hstarts
  unfold scanSymbol
  split
  · next second rest =>
    split
    · next op hop =>
      have hpattern : Token.Pattern (.operator op) [first, second] :=
        Operator.ofPair?_eq_some_iff.1 hop ▸ .operator op
      refine ⟨rfl, (longestMatch_symbol hpattern hdigit hword fun c hc _ _ => ?_).fits hstarts⟩
      rw [Option.some.inj hc]
    · next hnone =>
      refine hsingle fun c hc => ?_
      rwa [← Option.some.inj hc]
  · exact hsingle nofun

end

theorem scan_sound (first : Char) (cs : List Char) : (scan first cs).Sound (first :: cs) := by
  unfold scan countedScan
  split
  · next hbreak =>
    obtain rfl := beq_iff_eq.1 hbreak
    exact ⟨rfl, Trivia.Form.lineBreak.fits⟩
  next hbreak =>
  split
  · next hblank =>
    rw [Bool.or_eq_true, beq_iff_eq] at hblank
    exact ⟨rfl, (Trivia.Form.blank hblank (by simpa using hbreak)).fits⟩
  next hblank =>
  rw [Bool.or_eq_true, beq_iff_eq] at hblank
  -- from here on only a comment can be trivia
  have hstarts (hcomment : ∀ rest, first = '/' → cs ≠ '/' :: rest ∧ cs ≠ '*' :: rest) :
      ¬ StartsTrivia (first :: cs) := by
    intro h
    cases h with
    | blank h => exact hblank h
    | lineComment => exact (hcomment _ rfl).1 rfl
    | blockComment => exact (hcomment _ rfl).2 rfl
  split
  · next hdigit => exact scanNumber_sound hdigit (hstarts (by rintro _ rfl; cases hdigit))
  next hdigit =>
  split
  · next hword => exact scanWord_sound hword (hstarts (by rintro _ rfl; cases hword))
  next hword =>
  split
  · next hquote =>
    rw [Bool.or_eq_true, beq_iff_eq, beq_iff_eq] at hquote
    show (Scan.ofText first (scanText first cs)).Sound (first :: cs)
    have hsound := scanText_sound first cs
    cases hscan : scanText first cs with
    | done content text rest =>
      rw [hscan] at hsound
      obtain ⟨body, ending, rfl, rfl, hbody, hending⟩ := hsound
      exact ⟨rfl, (SpellsText.intro hquote hbody hending).fits⟩
    | badEscape sequence before =>
      rw [hscan] at hsound
      obtain ⟨content, rest, rfl, hbody, hbad⟩ := hsound
      exact ⟨first, content, before, rest, hquote, hbody, hbad, rfl, rfl⟩
  next hquote =>
  rw [Bool.or_eq_true, beq_iff_eq, beq_iff_eq] at hquote
  split
  · next rest =>
    exact ⟨by simp, (lineComment_form rest).fits⟩
  · next rest =>
    exact ⟨by simp [blockComment_append], (blockComment_form rest).fits⟩
  · next hline hblock =>
    exact scanSymbol_sound (eq_false_of_ne_true hdigit) (eq_false_of_ne_true hword) hquote
      (hstarts fun rest hfirst => ⟨hline rest hfirst, hblock rest hfirst⟩)

/-! ### The scanner finds all that fits -/

theorem scan_of_form {t : Trivia} {first : Char} {w rest : List Char}
    (h : t.Form (first :: w) rest) :
    scan first (w ++ rest) = .segment (.trivia t) (first :: w) rest := by
  generalize htext : first :: w = text at h
  cases h with
  | @blank c rest hblank hbreak =>
    obtain ⟨rfl, rfl⟩ := List.cons.inj htext
    have hbreak' : ¬ (first == '\n') = true := mt beq_iff_eq.1 hbreak
    have hblank' : (Text.isBlank first || first == '\uFEFF') = true := by
      rwa [Bool.or_eq_true, beq_iff_eq]
    unfold scan countedScan
    rw [if_neg hbreak', if_pos hblank', List.nil_append]
  | lineBreak =>
    obtain ⟨rfl, rfl⟩ := List.cons.inj htext
    rfl
  | @lineComment w rest hw hrest =>
    obtain ⟨rfl, rfl⟩ := List.cons.inj htext
    have hw' : ∀ c ∈ w, (c != '\n') = true := by
      intro c hc
      rw [bne_iff_ne]
      rintro rfl
      exact hw hc
    have hparts : (w ++ rest).takeWhile (· != '\n') = w ∧
        (w ++ rest).dropWhile (· != '\n') = rest := by
      rw [List.takeWhile_append_of_pos hw', List.dropWhile_append_of_pos hw']
      cases rest with
      | nil => exact ⟨List.append_nil w, rfl⟩
      | cons c rest =>
        obtain rfl := hrest c rfl
        exact ⟨List.append_nil w, rfl⟩
    show Scan.segment _ ('/' :: '/' :: (w ++ rest).takeWhile (· != '\n'))
      ((w ++ rest).dropWhile (· != '\n')) = _
    rw [hparts.1, hparts.2]
  | @closedComment w rest hw =>
    obtain ⟨rfl, rfl⟩ := List.cons.inj htext
    show Scan.segment _ ('/' :: '*' :: (blockComment (w ++ ['*', '/'] ++ rest)).1)
      (blockComment (w ++ ['*', '/'] ++ rest)).2 = _
    rw [List.append_assoc, List.cons_append, List.singleton_append, blockComment_closed hw]
  | @openComment w hw =>
    obtain ⟨rfl, rfl⟩ := List.cons.inj htext
    show Scan.segment _ ('/' :: '*' :: (blockComment (w ++ [])).1) (blockComment (w ++ [])).2 = _
    rw [List.append_nil, blockComment_open hw]

theorem scan_quote {quote : Char} (h : IsQuote quote) (cs : List Char) :
    scan quote cs = .ofText quote (scanText quote cs) := by
  rcases h with rfl | rfl <;> rfl

theorem LongestMatch.unique {t t' : Token} {w w' rest rest' : List Char}
    (h : LongestMatch t w rest) (h' : LongestMatch t' w' rest') (heq : w ++ rest = w' ++ rest') :
    t = t' ∧ w = w' ∧ rest = rest' := by
  have hlength : w.length = w'.length :=
    Nat.le_antisymm (h'.longest t w h.pattern ⟨rest, heq⟩)
      (h.longest t' w' h'.pattern ⟨rest', heq.symm⟩)
  obtain ⟨rfl, rfl⟩ := List.append_inj heq hlength
  refine ⟨?_, rfl, rfl⟩
  rcases h'.keyword t h.pattern with hsame | ⟨name, rfl⟩
  · exact hsame
  rcases h.keyword t' h'.pattern with hsame | ⟨name', rfl⟩
  · exact hsame.symm
  -- both are identifiers, named by the spelling
  rw [h.pattern.name_eq, h'.pattern.name_eq]

/-- A token that wins is found: nothing else fits where it stands. -/
theorem scan_of_longest {t : Token} {first : Char} {w rest : List Char}
    (h : LongestMatch t (first :: w) rest) (hstarts : ¬ StartsTrivia (first :: (w ++ rest))) :
    scan first (w ++ rest) = .segment t (first :: w) rest := by
  have hsound := scan_sound first (w ++ rest)
  generalize scan first (w ++ rest) = found at hsound
  cases found with
  | segment t' w' rest' =>
    obtain ⟨hsource, hfits⟩ := hsound
    rcases hfits.cases with ⟨_, -, hform⟩ | ⟨content, -, htext⟩ | ⟨hlongest, -⟩
    · exact absurd (hsource ▸ hform.startsTrivia) hstarts
    · obtain ⟨hquote, -, -⟩ := htext
      obtain ⟨rfl, -⟩ := List.cons.inj hsource
      exact absurd hquote h.pattern.not_quote
    · obtain ⟨rfl, rfl, rfl⟩ := h.unique hlongest hsource.symm
      rfl
  | stray c => exact absurd (List.prefix_append _ _) (hsound.2.token t (first :: w) h.pattern)
  | badEscape sequence before =>
    obtain ⟨quote, content, body, rest', hquote, -, -, rfl, hsource⟩ := hsound
    obtain ⟨rfl, -⟩ := List.cons.inj hsource
    exact absurd hquote h.pattern.not_quote

theorem scan_of_spells {content : String} {first : Char} {w rest : List Char}
    (h : SpellsText content.toList (first :: w) rest) :
    scan first (w ++ rest) = .segment (.text content) (first :: w) rest := by
  generalize htext : first :: w = text at h
  obtain ⟨hquote, hbody, hending⟩ := h
  obtain ⟨rfl, rfl⟩ := List.cons.inj htext
  rw [scan_quote hquote, List.append_assoc, scanText_of_spells hquote.ne_backslash hbody hending,
    Scan.ofText, String.ofList_toList]

theorem scan_eq_of_fits {s : Segment} {rest : List Char} (h : s.Fits rest) :
    ∃ first more, s.text = first :: more ∧
      scan first (more ++ rest) = .segment s.token s.text rest := by
  obtain ⟨token, text⟩ := s
  obtain ⟨first, more, rfl⟩ := List.exists_cons_of_ne_nil h.ne_nil
  refine ⟨first, more, rfl, ?_⟩
  rcases h.cases with ⟨t, rfl, hform⟩ | ⟨content, rfl, htext⟩ | ⟨hlongest, hstarts⟩
  · exact scan_of_form hform
  · exact scan_of_spells htext
  · exact scan_of_longest hlongest hstarts

theorem scan_of_startsNothing {first : Char} {cs : List Char} (h : StartsNothing (first :: cs)) :
    scan first cs = .stray first := by
  have hsound := scan_sound first cs
  generalize scan first cs = found at hsound
  cases found with
  | segment t w rest =>
    obtain ⟨hsource, hfits⟩ := hsound
    rcases hfits.cases with ⟨_, -, hform⟩ | ⟨content, -, htext⟩ | ⟨hlongest, -⟩
    · exact absurd (hsource ▸ hform.startsTrivia) h.trivia
    · obtain ⟨hquote, -, -⟩ := htext
      exact absurd hquote (h.quote _ (congrArg List.head? hsource.symm))
    · exact absurd ⟨rest, hsource⟩ (h.token t w hlongest.pattern)
  | stray c => rw [Option.some.inj hsound.1]
  | badEscape sequence before =>
    obtain ⟨quote, content, body, rest, hquote, -, -, rfl, hsource⟩ := hsound
    exact absurd hquote (h.quote _ (congrArg List.head? hsource.symm))

theorem scan_of_badEscape {quote : Char} {content body sequence rest : List Char}
    (hquote : IsQuote quote) (hbody : SpellsChars quote content body)
    (hbad : BadEscape sequence rest) :
    scan quote (body ++ (sequence ++ rest)) = .badEscape sequence (quote :: body) := by
  rw [scan_quote hquote, scanText_of_badEscape hquote.ne_backslash hbody hbad, Scan.ofText]

end TagScript
