import Mathlib.Data.List.Forall2
import Mathlib.Data.Nat.Digits.Lemmas
import TagScript.Proofs.Tiling

/-!
# Text literals

How a text can be spelled between quotes, and which escapes are malformed, said without the scanner
and without its reading of digits. `text_literal` says that every spelling of a text is read as that
text and leaves what follows the closing quote as it is, and that a literal is refused for the first
malformed escape in it and for nothing else.
-/

namespace TagScript

/-- A digit of a value below sixteen, in either case. -/
def HexDigit (h : Char) (v : Nat) : Prop :=
  v < 16 ∧ (h = Nat.digitChar v ∨ h = (Nat.digitChar v).toUpper)

/-- Digits and the number that they make up, the last one being that of the lowest place. -/
def HexNumber (digits : List Char) (n : Nat) : Prop :=
  ∃ values, List.Forall₂ HexDigit digits.reverse values ∧ Nat.ofDigits 16 values = n

/-- A way to spell a character between the given quotes. -/
inductive CharSpelling (quote : Char) : Char → List Char → Prop
  | raw {c : Char} : c ≠ quote → c ≠ '\\' → CharSpelling quote c [c]
  | newline : CharSpelling quote '\n' ['\\', 'n']
  | tab : CharSpelling quote '\t' ['\\', 't']
  | carriageReturn : CharSpelling quote '\r' ['\\', 'r']
  | short {c h₁ h₂ : Char} : HexNumber [h₁, h₂] c.toNat → CharSpelling quote c ['\\', 'x', h₁, h₂]
  | long {c h₁ h₂ h₃ h₄ : Char} : HexNumber [h₁, h₂, h₃, h₄] c.toNat →
    CharSpelling quote c ['\\', 'u', h₁, h₂, h₃, h₄]
  | itself {c : Char} : c ∉ ['n', 't', 'r', 'x', 'u'] → CharSpelling quote c ['\\', c]

/-- A spelling of each character, one after the other. -/
def Spelling (quote : Char) (content w : List Char) : Prop :=
  ∃ parts, List.Forall₂ (CharSpelling quote) content parts ∧ w = parts.flatten

/-- A source text starts with an escape whose digits are not all there or name a surrogate. The
escape is reported with as many characters as it asks for, or with all that are left. -/
inductive MalformedEscape : List Char → List Char → Prop
  | short {more : List Char} :
    (∀ digits n, digits.length = 2 → digits <+: more → ¬ HexNumber digits n) →
      MalformedEscape ('\\' :: 'x' :: more.take 2) ('\\' :: 'x' :: more)
  | long {more : List Char} :
    (∀ digits n, digits.length = 4 → digits <+: more → HexNumber digits n →
      0xD800 ≤ n ∧ n < 0xE000) →
      MalformedEscape ('\\' :: 'u' :: more.take 4) ('\\' :: 'u' :: more)

/-- A lexeme with `lines` line breaks and `lexemes` lexemes more before it. -/
def Lexeme.after (lines lexemes : Nat) (l : Lexeme) : Lexeme :=
  { l with line := lines + l.line, index := lexemes + l.index }

def LexError.after (lines : Nat) : LexError → LexError
  | unexpectedCharacter c line => unexpectedCharacter c (lines + line)
  | invalidEscape sequence line => invalidEscape sequence (lines + line)

/-- What lexing a source text gives with `lines` line breaks and `lexemes` lexemes before it. -/
def lexedAfter (lines lexemes : Nat) (r : Except LexError (List Lexeme)) :
    Except LexError (List Lexeme) :=
  (r.map (List.map (·.after lines lexemes))).mapError (·.after lines)

/-! ### Digits -/

theorem digitValue?_eq_none {h : Char} (hlarge : 128 ≤ h.toNat) : Text.digitValue? h = none := by
  have hval : h.toNat = h.val.toNat := rfl
  have hdigit : ¬ h.isDigit = true := by
    simp only [Char.isDigit, Bool.and_eq_true, decide_eq_true_eq, UInt32.le_iff_toNat_le,
      ge_iff_le]
    have hnine : '9'.val.toNat = 57 := rfl
    omega
  have hlower : ¬ ('a' ≤ h ∧ h ≤ 'f') := by
    simp only [Char.le_def, UInt32.le_iff_toNat_le]
    have hf : 'f'.val.toNat = 102 := rfl
    omega
  have hupper : ¬ ('A' ≤ h ∧ h ≤ 'F') := by
    simp only [Char.le_def, UInt32.le_iff_toNat_le]
    have hf : 'F'.val.toNat = 70 := rfl
    omega
  rw [Text.digitValue?, if_neg hdigit, if_neg hlower, if_neg hupper]

theorem digitValue?_eq_some_iff {h : Char} {v : Nat} :
    Text.digitValue? h = some v ↔ HexDigit h v := by
  constructor
  · intro hvalue
    -- all digits are among the first 128 characters, which are few enough to go through
    by_cases hsmall : h.toNat < 128
    · have hall : ∀ k < 128, ∀ v ∈ Text.digitValue? (Char.ofNat k), v < 16 ∧
          (Char.ofNat k = Nat.digitChar v ∨ Char.ofNat k = (Nat.digitChar v).toUpper) := by
        decide
      have hh := hall h.toNat hsmall v
      rw [Char.ofNat_toNat] at hh
      exact hh hvalue
    · rw [digitValue?_eq_none (by omega)] at hvalue
      cases hvalue
  · rintro ⟨hv, rfl | rfl⟩
    · revert v
      decide
    · revert v
      decide

/-- A digit of a base up to sixteen, in either case. -/
def DigitIn (base : Nat) (h : Char) (v : Nat) : Prop :=
  v < base ∧ (h = Nat.digitChar v ∨ h = (Nat.digitChar v).toUpper)

/-- Digits of a base and the number that they make up. -/
def NumberIn (base : Nat) (digits : List Char) (n : Nat) : Prop :=
  ∃ values, List.Forall₂ (DigitIn base) digits.reverse values ∧ Nat.ofDigits base values = n

theorem digitIn_iff {base : Nat} (hbase : base ≤ 16) {h : Char} {v : Nat} :
    DigitIn base h v ↔ Text.digitValue? h = some v ∧ v < base := by
  rw [digitValue?_eq_some_iff, HexDigit, DigitIn]
  constructor
  · rintro ⟨hv, hh⟩
    exact ⟨⟨by omega, hh⟩, hv⟩
  · rintro ⟨⟨-, hh⟩, hv⟩
    exact ⟨hv, hh⟩

theorem numberIn_concat_iff {base : Nat} {digits : List Char} {h : Char} {n : Nat} :
    NumberIn base (digits ++ [h]) n ↔
      ∃ m v, NumberIn base digits m ∧ DigitIn base h v ∧ n = base * m + v := by
  simp only [NumberIn, List.reverse_concat, List.forall₂_cons_left_iff]
  constructor
  · rintro ⟨_, ⟨v, values, hv, hvalues, rfl⟩, rfl⟩
    exact ⟨_, v, ⟨values, hvalues, rfl⟩, hv, Nat.add_comm _ _⟩
  · rintro ⟨_, v, ⟨values, hvalues, rfl⟩, hv, rfl⟩
    exact ⟨_, ⟨v, values, hv, hvalues, rfl⟩, Nat.add_comm _ _⟩

theorem readDigits?_eq_some_iff_numberIn {base : Nat} (hbase : base ≤ 16) {digits : List Char}
    {n : Nat} : Text.readDigits? base digits = some n ↔ NumberIn base digits n := by
  induction digits using List.reverseRecOn generalizing n with
  | nil => simp [Text.readDigits?, NumberIn]
  | append_singleton digits h ih =>
    simp only [readDigits?_concat, numberIn_concat_iff, Option.bind_eq_some_iff, ih,
      digitIn_iff hbase]
    constructor
    · rintro ⟨m, hm, v, hv, hn⟩
      split at hn
      · next hlt => exact ⟨m, v, hm, ⟨hv, hlt⟩, (Option.some.inj hn).symm⟩
      · cases hn
    · rintro ⟨m, v, hm, ⟨hv, hlt⟩, rfl⟩
      exact ⟨m, hm, v, hv, if_pos hlt⟩

theorem readDigits?_eq_some_iff {digits : List Char} {n : Nat} :
    Text.readDigits? 16 digits = some n ↔ HexNumber digits n :=
  readDigits?_eq_some_iff_numberIn (le_refl 16)

theorem HexNumber.lt {digits : List Char} {n : Nat} (h : HexNumber digits n) :
    n < 16 ^ digits.length := by
  induction digits using List.reverseRecOn generalizing n with
  | nil =>
    obtain ⟨_, ⟨⟩, rfl⟩ := h
    decide
  | append_singleton digits h ih =>
    obtain ⟨m, v, hm, hv, rfl⟩ := numberIn_concat_iff.1 (show NumberIn 16 _ n from h)
    have hlt := ih hm
    have hv := hv.1
    rw [List.length_append, List.length_singleton, Nat.pow_succ]
    omega

theorem escapedChar?_eq_some_iff {digits : List Char} {c : Char} :
    escapedChar? digits = some c ↔ HexNumber digits c.toNat := by
  rw [← readDigits?_eq_some_iff, escapedChar?]
  constructor
  · intro h
    obtain ⟨n, hread, hchar⟩ := Option.bind_eq_some_iff.1 h
    split at hchar
    · next hvalid =>
      obtain rfl := Option.some.inj hchar
      rw [hread, Char.ofNat, dif_pos hvalid]
      rfl
    · cases hchar
  · intro h
    have hvalid : c.toNat.isValidChar := c.valid
    rw [h, Option.bind_some, if_pos hvalid, Char.ofNat_toNat]

/-- Up to four digits name no character only if they are no number or make up a surrogate. -/
theorem escapedChar?_eq_none_iff {digits : List Char} (hlength : digits.length ≤ 4) :
    escapedChar? digits = none ↔ ∀ n, HexNumber digits n → 0xD800 ≤ n ∧ n < 0xE000 := by
  simp only [escapedChar?, Option.bind_eq_none_iff, readDigits?_eq_some_iff, ite_eq_right_iff,
    reduceCtorEq, imp_false]
  refine forall₂_congr fun n hn => ?_
  have hbound : n < 16 ^ 4 := hn.lt.trans_le (Nat.pow_le_pow_right (by decide) hlength)
  simp only [Nat.isValidChar]
  omega

/-! ### Spellings -/

theorem letterEscape_of_ne {c : Char} (hn : c ≠ 'n') (ht : c ≠ 't') (hr : c ≠ 'r') :
    letterEscape c = c := by
  unfold letterEscape
  split
  · exact absurd rfl hn
  · exact absurd rfl ht
  · exact absurd rfl hr
  · rfl

theorem charSpelling_iff {quote c : Char} {w : List Char} :
    CharSpelling quote c w ↔ SpellsChar quote c w := by
  constructor
  · intro h
    cases h with
    | raw hquote hslash => exact .raw hquote hslash
    | newline => exact .letter (e := 'n') (by decide) (by decide)
    | tab => exact .letter (e := 't') (by decide) (by decide)
    | carriageReturn => exact .letter (e := 'r') (by decide) (by decide)
    | short hnumber => exact .short (escapedChar?_eq_some_iff.2 hnumber)
    | long hnumber => exact .long (escapedChar?_eq_some_iff.2 hnumber)
    | itself hletter =>
      simp only [List.mem_cons, List.not_mem_nil, or_false, not_or] at hletter
      obtain ⟨hn, ht, hr, hx, hu⟩ := hletter
      have hspells : SpellsChar quote (letterEscape c) ['\\', c] := .letter hx hu
      rwa [letterEscape_of_ne hn ht hr] at hspells
  · intro h
    cases h with
    | raw hquote hslash => exact .raw hquote hslash
    | @letter e hx hu =>
      by_cases hn : e = 'n'
      · obtain rfl := hn
        exact .newline
      by_cases ht : e = 't'
      · obtain rfl := ht
        exact .tab
      by_cases hr : e = 'r'
      · obtain rfl := hr
        exact .carriageReturn
      rw [letterEscape_of_ne hn ht hr]
      exact .itself (by simp [hn, ht, hr, hx, hu])
    | short hescaped => exact .short (escapedChar?_eq_some_iff.1 hescaped)
    | long hescaped => exact .long (escapedChar?_eq_some_iff.1 hescaped)

theorem spelling_iff {quote : Char} {content w : List Char} :
    Spelling quote content w ↔ SpellsChars quote content w := by
  constructor
  · rintro ⟨parts, hparts, rfl⟩
    induction hparts with
    | nil => exact .nil
    | cons hc _ ih => exact .cons (charSpelling_iff.1 hc) ih
  · intro h
    induction h with
    | nil => exact ⟨[], .nil, rfl⟩
    | @cons c cs w ws hc _ ih =>
      obtain ⟨parts, hparts, rfl⟩ := ih
      exact ⟨w :: parts, .cons (charSpelling_iff.2 hc) hparts, rfl⟩

/-! ### Malformed escapes -/

/-- The characters after the letter of a refused escape are those that it asks for, or all. -/
theorem BadEscape.exists_more {sequence rest : List Char} (h : BadEscape sequence rest) :
    ∃ letter size, ∃ more : List Char, (letter = 'x' ∧ size = 2 ∨ letter = 'u' ∧ size = 4) ∧
      sequence = '\\' :: letter :: more.take size ∧ rest = more.drop size := by
  cases h with
  | @refused letter digits rest hdigits =>
    refine ⟨letter, digits.length, digits ++ rest, hdigits, ?_, ?_⟩
    · rw [List.take_left]
    · rw [List.drop_left]
  | @cutShort letter digits hdigits =>
    obtain ⟨size, hletter, hshort⟩ : ∃ size, (letter = 'x' ∧ size = 2 ∨ letter = 'u' ∧ size = 4) ∧
        digits.length ≤ size := by
      rcases hdigits with ⟨rfl, hshort⟩ | ⟨rfl, hshort⟩
      · exact ⟨2, .inl ⟨rfl, rfl⟩, hshort.le⟩
      · exact ⟨4, .inr ⟨rfl, rfl⟩, hshort.le⟩
    refine ⟨letter, size, digits, hletter, ?_, ?_⟩
    · rw [List.take_of_length_le hshort]
    · rw [List.drop_of_length_le hshort]

/-- The digits that are there decide whether an escape is refused. -/
theorem badEscape_take_iff {letter : Char} {size : Nat}
    (hletter : letter = 'x' ∧ size = 2 ∨ letter = 'u' ∧ size = 4) (more : List Char) :
    BadEscape ('\\' :: letter :: more.take size) (more.drop size) ↔
      ∀ digits n, digits.length = size → digits <+: more → HexNumber digits n →
        0xD800 ≤ n ∧ n < 0xE000 := by
  have hsize : size ≤ 4 := by omega
  constructor
  · intro hbad digits n hlength hfront hn
    have hdigits : digits = more.take size := hlength ▸ List.prefix_iff_eq_take.1 hfront
    rw [← hdigits] at hbad
    generalize more.drop size = rest at hbad
    cases hbad with
    | refused _ hescaped => exact (escapedChar?_eq_none_iff (by omega)).1 hescaped n hn
    | cutShort hshort =>
      rcases hletter with ⟨rfl, rfl⟩ | ⟨rfl, rfl⟩
      · simp [hlength] at hshort
      · simp [hlength] at hshort
  · intro h
    by_cases hlength : more.length < size
    · rw [List.take_of_length_le hlength.le, List.drop_of_length_le hlength.le]
      exact .cutShort (hletter.imp (.imp_right hlength.trans_eq) (.imp_right hlength.trans_eq))
    · have htake : (more.take size).length = size := by
        rw [List.length_take]
        omega
      refine .refused (hletter.imp (.imp_right htake.trans) (.imp_right htake.trans)) ?_
      rw [escapedChar?_eq_none_iff (by omega)]
      exact fun n => h _ n htake (List.take_prefix size more)

theorem malformedEscape_iff {sequence source : List Char} :
    MalformedEscape sequence source ↔
      ∃ rest, source = sequence ++ rest ∧ BadEscape sequence rest := by
  constructor
  · intro h
    cases h with
    | @short more h =>
      refine ⟨more.drop 2, by simp, (badEscape_take_iff (.inl ⟨rfl, rfl⟩) more).2 ?_⟩
      intro digits n hlength hfront hn
      exact absurd hn (h digits n hlength hfront)
    | @long more h =>
      exact ⟨more.drop 4, by simp, (badEscape_take_iff (.inr ⟨rfl, rfl⟩) more).2 h⟩
  · rintro ⟨rest, rfl, hbad⟩
    obtain ⟨letter, size, more, hletter, rfl, rfl⟩ := hbad.exists_more
    have hdigits := (badEscape_take_iff hletter more).1 hbad
    rw [List.cons_append, List.cons_append, List.take_append_drop]
    rcases hletter with ⟨rfl, rfl⟩ | ⟨rfl, rfl⟩
    · refine .short fun digits n hlength hfront hn => ?_
      -- two digits are too few for a surrogate
      have hbound := hn.lt
      have hsurrogate := hdigits digits n hlength hfront hn
      rw [hlength] at hbound
      omega
    · exact .long hdigits

/-- A text is refused exactly where its first malformed escape stands. -/
theorem scanText_eq_badEscape_iff {quote : Char} (hquote : quote ≠ '\\')
    {cs sequence before : List Char} :
    scanText quote cs = .badEscape sequence before ↔
      ∃ content rest, cs = before ++ rest ∧ Spelling quote content before ∧
        MalformedEscape sequence rest := by
  constructor
  · intro hscan
    have hsound := scanText_sound quote cs
    rw [hscan] at hsound
    obtain ⟨content, rest, rfl, hbody, hbad⟩ := hsound
    exact ⟨content, sequence ++ rest, rfl, spelling_iff.2 hbody,
      malformedEscape_iff.2 ⟨rest, rfl, hbad⟩⟩
  · rintro ⟨content, source, rfl, hbody, hmalformed⟩
    obtain ⟨rest, rfl, hbad⟩ := malformedEscape_iff.1 hmalformed
    exact scanText_of_badEscape hquote (spelling_iff.1 hbody) hbad

/-! ### What stands before a source text -/

/-- Lexing does not depend on what stands before the source text, lines and positions apart. -/
theorem lexFrom_add (lines lexemes line index : Nat) (source : List Char) :
    lexFrom (lines + line) (lexemes + index) source =
      lexedAfter lines lexemes (lexFrom line index source) := by
  fun_induction lexFrom line index source with
  | case1 =>
    rw [lexFrom]
    rfl
  | case2 line index first cs token text rest _ hscan line' htrivia ih =>
    obtain ⟨hfound, rfl⟩ := countedScan_eq_iff.1 hscan
    have hlines : lines + line + breaks text = lines + line' := Nat.add_assoc ..
    rw [lexFrom_of_segment hfound, if_pos htrivia, hlines, ih]
  | case3 line index first cs token text rest _ hscan line' htrivia ih =>
    obtain ⟨hfound, rfl⟩ := countedScan_eq_iff.1 hscan
    have hlines : lines + line + breaks text = lines + line' := Nat.add_assoc ..
    rw [lexFrom_of_segment hfound, if_neg htrivia, hlines, Nat.add_assoc, ih]
    cases lexFrom line' (index + 1) rest <;> rfl
  | case4 line index first cs c _ hscan =>
    obtain ⟨hfound, rfl⟩ := countedScan_eq_iff.1 hscan
    rw [lexFrom_of_stray hfound]
    rfl
  | case5 line index first cs sequence before _ hscan =>
    obtain ⟨hfound, rfl⟩ := countedScan_eq_iff.1 hscan
    rw [lexFrom_of_badEscape hfound, Nat.add_assoc]
    rfl

/-- The lexemes of a literal and of what follows it. -/
theorem lex_literal {quote : Char} {t : String} {w ending rest : List Char}
    (hquote : IsQuote quote) (hw : Spelling quote t.toList w)
    (hending : EndsText quote ending rest) :
    lex (String.ofList (quote :: (w ++ (ending ++ rest)))) =
      (lexedAfter (breaks w) 1 (lex (String.ofList rest))).map
        (⟨.text t, 1 + breaks w, 0⟩ :: ·) := by
  have hscan := scan_of_spells (.intro hquote (spelling_iff.1 hw) hending)
  have hbreaks : breaks (quote :: (w ++ ending)) = breaks w := by
    have hnone : breaks ending = 0 := by
      cases hending with
      | closed => exact breaks_quote hquote []
      | unclosed => rfl
      | loneBackslash => rfl
    rw [breaks_quote hquote, breaks_append, hnone, Nat.add_zero]
  rw [List.append_assoc] at hscan
  rw [lex, lex, String.toList_ofList, String.toList_ofList, lexFrom_of_segment hscan, hbreaks,
    ← lexFrom_add, Nat.add_comm (breaks w)]
  rfl

/-- Every spelling of a text between quotes is read as that text, and what follows the closing quote
is lexed as on its own, after the lines of the literal. Where the source ends before the quote, the
text ends with it, and a lone backslash there stands for nothing. A literal is refused exactly if
some characters spelled well are followed by a malformed escape, which the error reports. -/
theorem text_literal {quote : Char} (hquote : IsQuote quote) :
    (∀ t w, Spelling quote t.toList w →
      (∀ rest, lex (String.ofList (quote :: (w ++ quote :: rest))) =
        (lexedAfter (breaks w) 1 (lex (String.ofList rest))).map
          (⟨.text t, 1 + breaks w, 0⟩ :: ·)) ∧
      lex (String.ofList (quote :: w)) = .ok [⟨.text t, 1 + breaks w, 0⟩] ∧
      lex (String.ofList (quote :: (w ++ ['\\']))) = .ok [⟨.text t, 1 + breaks w, 0⟩]) ∧
    ∀ cs sequence before,
      (scanText quote cs = .badEscape sequence before ↔
        ∃ content rest, cs = before ++ rest ∧ Spelling quote content before ∧
          MalformedEscape sequence rest) ∧
      (scanText quote cs = .badEscape sequence before →
        lex (String.ofList (quote :: cs)) =
          .error (.invalidEscape (String.ofList sequence) (1 + breaks before))) := by
  have hempty : lex (String.ofList []) = .ok [] := by
    rw [lex, String.toList_ofList, lexFrom]
  refine ⟨fun t w hw => ⟨fun rest => ?_, ?_, ?_⟩, fun cs sequence before =>
    ⟨scanText_eq_badEscape_iff hquote.ne_backslash, fun hscan => ?_⟩⟩
  · rw [← lex_literal hquote hw .closed, List.singleton_append]
  · have hlex := lex_literal hquote hw .unclosed
    rw [hempty, List.append_nil, List.append_nil] at hlex
    rw [hlex]
    rfl
  · have hlex := lex_literal hquote hw .loneBackslash
    rw [hempty, List.append_nil] at hlex
    rw [hlex]
    rfl
  · have hquoted : scan quote cs = .badEscape sequence (quote :: before) := by
      rw [scan_quote hquote, hscan, Scan.ofText]
    rw [lex, String.toList_ofList, lexFrom_of_badEscape hquoted, breaks_quote hquote]

/-- A text with an escaped quote and a line break in it, one that the source ends, and an escape
that the closing quote cuts short. -/
theorem text_literal_in_either_quotes :
    IsQuote '\x22' ∧ IsQuote '\x27' ∧
      lex (String.ofList ['\x22', '\\', '\x22', '\n', '\x22', '\x27', '\\', 'x', '4', 'a', '\\']) =
        .ok [⟨.text (String.ofList ['\x22', '\n']), 2, 0⟩, ⟨.text (String.ofList ['J']), 2, 1⟩] ∧
      lex (String.ofList ['\x22', 'a', '\\', 'u', 'e', '9', '\x22']) =
        .error (.invalidEscape (String.ofList ['\\', 'u', 'e', '9', '\x22']) 1) := by
  have hdouble : IsQuote '\x22' := .inl rfl
  have hsingle : IsQuote '\x27' := .inr rfl
  have hfirst : Spelling '\x22' (String.ofList ['\x22', '\n']).toList ['\\', '\x22', '\n'] := by
    rw [String.toList_ofList]
    have hquote : CharSpelling '\x22' '\x22' ['\\', '\x22'] := .itself (by decide)
    have hbreak : CharSpelling '\x22' '\n' ['\n'] := .raw (by decide) (by decide)
    exact ⟨_, .cons hquote (.cons hbreak .nil), rfl⟩
  have hsecond : Spelling '\x27' (String.ofList ['J']).toList ['\\', 'x', '4', 'a'] := by
    rw [String.toList_ofList]
    have hnumber : HexNumber ['4', 'a'] 'J'.toNat :=
      ⟨[10, 4], .cons ⟨by decide, .inl rfl⟩ (.cons ⟨by decide, .inl rfl⟩ .nil), rfl⟩
    exact ⟨_, .cons (.short hnumber) .nil, rfl⟩
  have hbefore : Spelling '\x22' ['a'] ['a'] :=
    ⟨_, .cons (.raw (by decide) (by decide)) .nil, rfl⟩
  have hescape : MalformedEscape ['\\', 'u', 'e', '9', '\x22'] ['\\', 'u', 'e', '9', '\x22'] := by
    have hshort (digits : List Char) (n : Nat) (hlength : digits.length = 4)
        (hfront : digits <+: ['e', '9', '\x22']) (_ : HexNumber digits n) :
        0xD800 ≤ n ∧ n < 0xE000 :=
      absurd (hlength ▸ hfront.length_le) (by decide)
    exact .long hshort
  refine ⟨hdouble, hsingle, ?_, ?_⟩
  · have hlex := ((text_literal hdouble).1 _ _ hfirst).1 ['\x27', '\\', 'x', '4', 'a', '\\']
    have hrest := ((text_literal hsingle).1 _ _ hsecond).2.2
    rw [List.cons_append, List.cons_append, List.cons_append, List.cons_append, List.nil_append]
      at hrest
    rw [hrest] at hlex
    exact hlex
  · obtain ⟨hiff, hlex⟩ := (text_literal hdouble).2 _ _ ['a']
    exact hlex (hiff.2 ⟨['a'], _, rfl, hbefore, hescape⟩)

end TagScript
