import Mathlib.Data.List.Induction
import TagScript.Proofs.Segment

/-!
# Counting lines

The scanner moves the line on in four places: at a line break, in a block comment, and in a text at
a raw line break and at one after a backslash. Everything else it cuts off leaves the line alone.

`countedScan_breaks` says that this is the number of line breaks in the source text that was cut
off, whatever stood there: a token other than a text, blank space, a line comment and the digits of
an escape have no line break in them. Where an escape stops the scanner, it has counted the line
breaks before the escape.
-/

namespace TagScript

/-- The line breaks of a source text. -/
def breaks (cs : List Char) : Nat :=
  cs.count '\n'

theorem breaks_append (cs ds : List Char) : breaks (cs ++ ds) = breaks cs + breaks ds :=
  List.count_append

theorem breaks_cons (c : Char) (cs : List Char) : breaks (c :: cs) = lineStep c + breaks cs := by
  simp only [breaks, List.count_cons, lineStep, beq_iff_eq]
  omega

theorem breaks_eq_zero {cs : List Char} (h : '\n' ∉ cs) : breaks cs = 0 :=
  List.count_eq_zero.2 h

theorem lineStep_of_ne {c : Char} (h : c ≠ '\n') : lineStep c = 0 :=
  if_neg h

/-! ### Texts -/

/-- The source text that was read. -/
def TextScan.text : TextScan → List Char
  | done _ text _ => text
  | badEscape _ before => before

theorem TextScan.text_push (c : Char) (spelling : List Char) (t : TextScan) :
    (t.push c spelling).text = spelling ++ t.text := by
  cases t <;> rfl

theorem readDigits?_concat (base : Nat) (digits : List Char) (h : Char) :
    Text.readDigits? base (digits ++ [h]) =
      (Text.readDigits? base digits).bind fun n => (Text.digitValue? h).bind fun v =>
        if v < base then some (base * n + v) else none := by
  simp [Text.readDigits?]

/-- A line break is no digit of any base. -/
theorem lineBreak_not_mem_of_readDigits? {base : Nat} {digits : List Char} {n : Nat}
    (h : Text.readDigits? base digits = some n) : '\n' ∉ digits := by
  induction digits using List.reverseRecOn generalizing n with
  | nil => exact List.not_mem_nil
  | append_singleton digits d ih =>
    rw [readDigits?_concat] at h
    obtain ⟨m, hm, h⟩ := Option.bind_eq_some_iff.1 h
    obtain ⟨v, hv, -⟩ := Option.bind_eq_some_iff.1 h
    rw [List.mem_append, List.mem_singleton, not_or]
    refine ⟨ih hm, ?_⟩
    rintro rfl
    cases hv

theorem breaks_escape {letter c : Char} {digits : List Char} (hletter : letter ≠ '\n')
    (h : escapedChar? digits = some c) : breaks ('\\' :: letter :: digits) = 0 := by
  obtain ⟨n, hn, -⟩ := Option.bind_eq_some_iff.1 h
  rw [breaks_cons, breaks_cons, breaks_eq_zero (lineBreak_not_mem_of_readDigits? hn),
    lineStep_of_ne hletter]
  rfl

/-- What a text counts while it is read are the line breaks in what was read of it. -/
theorem countedText_breaks {quote : Char} (hquote : quote ≠ '\n') (cs : List Char) :
    (countedText quote cs).2 = breaks (scanText quote cs).text := by
  unfold scanText
  fun_induction countedText quote cs with
  | case1 => rfl
  | case2 => exact (breaks_eq_zero (by simpa [TextScan.text] using hquote.symm)).symm
  | case3 c cs _ _ ih =>
    rw [TextScan.pushCounted_fst, TextScan.pushCounted_snd, TextScan.text_push, ih,
      List.singleton_append, breaks_cons]
  | case4 => rfl
  | case5 _ _ _ h₁ h₂ rest e hescaped ih =>
    have hspelling : breaks ['\\', 'x', h₁, h₂] = 0 := breaks_escape (by decide) hescaped
    rw [TextScan.pushCounted_fst, TextScan.pushCounted_snd, TextScan.text_push, ih, breaks_append,
      hspelling]
  | case6 => rfl
  | case7 => rfl
  | case8 _ _ _ h₁ h₂ h₃ h₄ rest e hescaped ih =>
    have hspelling : breaks ['\\', 'u', h₁, h₂, h₃, h₄] = 0 := breaks_escape (by decide) hescaped
    rw [TextScan.pushCounted_fst, TextScan.pushCounted_snd, TextScan.text_push, ih, breaks_append,
      hspelling]
  | case9 => rfl
  | case10 => rfl
  | case11 _ _ _ e rest _ _ _ _ ih =>
    have hslash : lineStep '\\' = 0 := rfl
    rw [TextScan.pushCounted_fst, TextScan.pushCounted_snd, TextScan.text_push, ih,
      List.cons_append, List.singleton_append, breaks_cons, breaks_cons, hslash, Nat.zero_add]

/-! ### Segments -/

/-- The source text that was read; a stray character is not. -/
def Scan.text : Scan → List Char
  | segment _ text _ => text
  | stray _ => []
  | badEscape _ before => before

theorem IsQuote.ne_lineBreak {quote : Char} (h : IsQuote quote) : quote ≠ '\n' := by
  rcases h with rfl | rfl <;> decide

theorem breaks_quote {quote : Char} (h : IsQuote quote) (cs : List Char) :
    breaks (quote :: cs) = breaks cs := by
  rw [breaks_cons, lineStep_of_ne h.ne_lineBreak, Nat.zero_add]

theorem Scan.text_ofText (quote : Char) (t : TextScan) :
    (Scan.ofText quote t).text = quote :: t.text := by
  cases t <;> rfl

theorem breaks_takeWhile {p : Char → Bool} (hp : p '\n' = false) (cs : List Char) :
    breaks (cs.takeWhile p) = 0 := by
  refine breaks_eq_zero fun hmem => ?_
  rw [forall_mem_takeWhile p cs _ hmem] at hp
  cases hp

theorem breaks_lineComment (cs : List Char) :
    breaks ('/' :: '/' :: cs.takeWhile (· != '\n')) = 0 := by
  rw [breaks_cons, breaks_cons, breaks_takeWhile rfl]
  rfl

theorem breaks_blockComment (cs : List Char) :
    breaks ('/' :: '*' :: (blockComment cs).1) = (blockComment cs).1.count '\n' := by
  rw [breaks_cons, breaks_cons, lineStep_of_ne (by decide), lineStep_of_ne (by decide),
    Nat.zero_add, Nat.zero_add, breaks]

theorem breaks_symbol (op : Operator) : breaks op.symbol.toList = 0 := by
  cases op <;> decide

section

variable {first : Char} (cs : List Char) (hfirst : first ≠ '\n')

include hfirst

theorem breaks_scanNumber : breaks (scanNumber first cs).text = 0 := by
  have hwhole : breaks (first :: cs.takeWhile Char.isDigit) = 0 := by
    rw [breaks_cons, lineStep_of_ne hfirst, breaks_takeWhile rfl]
  unfold scanNumber
  extract_lets whole
  split
  · next rest _ =>
    show breaks (whole ++ '.' :: rest.takeWhile Char.isDigit) = 0
    rw [breaks_append, hwhole, breaks_cons, breaks_takeWhile rfl]
    rfl
  · exact hwhole

theorem breaks_scanWord : breaks (scanWord first cs).text = 0 := by
  show breaks (first :: cs.takeWhile isWordPart) = 0
  rw [breaks_cons, lineStep_of_ne hfirst, breaks_takeWhile rfl]

theorem breaks_scanSymbol : breaks (scanSymbol first cs).text = 0 := by
  have hone : breaks [first] = 0 := by
    rw [breaks_cons, lineStep_of_ne hfirst]
    rfl
  have hsingle : breaks (scanSymbol.single first cs).text = 0 := by
    unfold scanSymbol.single
    split
    · exact hone
    · exact hone
    · rfl
  unfold scanSymbol
  split
  · next second rest =>
    split
    · next op hop =>
      show breaks [first, second] = 0
      rw [← Operator.ofPair?_eq_some_iff.1 hop, breaks_symbol]
    · exact hsingle
  · exact hsingle

end

/-- What the scanner counts are the line breaks in the source text that it has read. -/
theorem countedScan_breaks (first : Char) (cs : List Char) :
    (countedScan first cs).2 = breaks (scan first cs).text := by
  unfold scan countedScan
  split
  · next hbreak =>
    obtain rfl := beq_iff_eq.1 hbreak
    rfl
  next hbreak =>
  have hfirst : first ≠ '\n' := mt beq_iff_eq.2 hbreak
  split
  · show 0 = breaks [first]
    rw [breaks_cons, lineStep_of_ne hfirst]
    rfl
  split
  · exact (breaks_scanNumber cs hfirst).symm
  split
  · exact (breaks_scanWord cs hfirst).symm
  split
  · show (countedText first cs).2 = breaks (Scan.ofText first (scanText first cs)).text
    rw [Scan.text_ofText, countedText_breaks hfirst, breaks_cons, lineStep_of_ne hfirst,
      Nat.zero_add]
  split
  · exact (breaks_lineComment _).symm
  · exact (breaks_blockComment _).symm
  · exact (breaks_scanSymbol cs hfirst).symm

/-- The count is settled by what the scanner finds. -/
theorem countedScan_eq_iff {first : Char} {cs : List Char} {found : Scan} {lines : Nat} :
    countedScan first cs = (found, lines) ↔ scan first cs = found ∧ lines = breaks found.text := by
  constructor
  · intro h
    have hfound : scan first cs = found := congrArg Prod.fst h
    refine ⟨hfound, ?_⟩
    rw [← hfound, ← countedScan_breaks, h]
  · rintro ⟨rfl, rfl⟩
    rw [← countedScan_breaks]
    rfl

end TagScript
