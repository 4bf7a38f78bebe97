import TagScript.Decimal.Reader
import TagScript.Text.Blank
import TagScript.Text.Quoted
import TagScript.Token.Basic

/-!
# Cutting source text into lexemes

`scan` cuts one segment off the front of a source text: a token or trivia, always the longest that
fits. `scan_tiles` says that a segment and the rest are the whole text and that no segment is empty,
so `lexFrom` ends.

Only some segments move the line on, and each kind counts its line breaks in its own way: a line
break is one, a block comment has those it skips over, and a text those it comes across, raw or
after a backslash. `countedText` and `countedScan` count while they scan; `scanText` and `scan` are
what they find.
-/

namespace TagScript

inductive LexError where
  /-- No token starts with the character. -/
  | unexpectedCharacter (c : Char) (line : Nat)
  /-- An escape in a text names no character; `sequence` is the escape as written. -/
  | invalidEscape (sequence : String) (line : Nat)
deriving DecidableEq, Repr

namespace LexError

def message : LexError → String
  | unexpectedCharacter c line =>
    s!"Error on line {line}: Unexpected character: {Text.quotedChar c}."
  | invalidEscape sequence line =>
    s!"Error on line {line}: Invalid escape sequence '{sequence}'."

end LexError

/-! ### Texts -/

/-- The character that the digits of an escape name; surrogates are no characters. -/
def escapedChar? (digits : List Char) : Option Char :=
  (Text.readDigits? 16 digits).bind fun n => if n.isValidChar then some (Char.ofNat n) else none

/-- What reading a text after its opening quote gives: its content, the source up to and with the
closing quote, and the rest; or an escape that names no character and the source before it. -/
inductive TextScan where
  | done (content text rest : List Char)
  | badEscape (sequence before : List Char)

namespace TextScan

/-- Puts one character, spelled as given, before what was read. -/
def push (c : Char) (spelling : List Char) : TextScan → TextScan
  | done content text rest => done (c :: content) (spelling ++ text) rest
  | badEscape sequence before => badEscape sequence (spelling ++ before)

/-- Puts one character before what was read and counted, and adds the lines that it moves on. -/
def pushCounted (c : Char) (spelling : List Char) (lines : Nat) (counted : TextScan × Nat) :
    TextScan × Nat :=
  (counted.1.push c spelling, lines + counted.2)

@[simp] theorem pushCounted_fst (c : Char) (spelling : List Char) (lines : Nat)
    (counted : TextScan × Nat) :
    (pushCounted c spelling lines counted).1 = counted.1.push c spelling :=
  rfl

@[simp] theorem pushCounted_snd (c : Char) (spelling : List Char) (lines : Nat)
    (counted : TextScan × Nat) :
    (pushCounted c spelling lines counted).2 = lines + counted.2 :=
  rfl

end TextScan

/-- The character for a letter after a backslash; all but three stand for themselves. -/
def letterEscape : Char → Char
  | 'n' => '\n'
  | 't' => '\t'
  | 'r' => '\r'
  | c => c

/-- How many lines a character that is read moves on. -/
def lineStep (c : Char) : Nat :=
  if c = '\n' then 1 else 0

/-- Reads a text up to the closing quote, or to the end of the source if there is none, and counts
the line breaks on the way, as far as an escape that names no character. A backslash at the very end
stands for nothing. -/
def countedText (quote : Char) : List Char → TextScan × Nat
  | [] => (.done [] [] [], 0)
  | c :: cs =>
    if c = quote then (.done [] [c] cs, 0)
    else if c ≠ '\\' then TextScan.pushCounted c [c] (lineStep c) (countedText quote cs)
    else match cs with
      | [] => (.done [] ['\\'] [], 0)
      | 'x' :: h₁ :: h₂ :: rest =>
        match escapedChar? [h₁, h₂] with
        | some e => TextScan.pushCounted e ['\\', 'x', h₁, h₂] 0 (countedText quote rest)
        | none => (.badEscape ['\\', 'x', h₁, h₂] [], 0)
      | 'x' :: rest => (.badEscape ('\\' :: 'x' :: rest) [], 0)
      | 'u' :: h₁ :: h₂ :: h₃ :: h₄ :: rest =>
        match escapedChar? [h₁, h₂, h₃, h₄] with
        | some e => TextScan.pushCounted e ['\\', 'u', h₁, h₂, h₃, h₄] 0 (countedText quote rest)
        | none => (.badEscape ['\\', 'u', h₁, h₂, h₃, h₄] [], 0)
      | 'u' :: rest => (.badEscape ('\\' :: 'u' :: rest) [], 0)
      | e :: rest =>
        TextScan.pushCounted (letterEscape e) ['\\', e] (lineStep e) (countedText quote rest)

/-- What reading a text gives. -/
def scanText (quote : Char) (cs : List Char) : TextScan :=
  (countedText quote cs).1

/-! ### Segments -/

/-- What stands at the front of a source text. -/
inductive Scan where
  | segment (token : Token) (text rest : List Char)
  | stray (c : Char)
  | badEscape (sequence before : List Char)

/-- What a text stands for that was read after the given quote. -/
def Scan.ofText (quote : Char) : TextScan → Scan
  | .done content text rest => .segment (.text (String.ofList content)) (quote :: text) rest
  | .badEscape sequence before => .badEscape sequence (quote :: before)

def isWordStart (c : Char) : Bool :=
  c.isAlpha || c == '_'

def isWordPart (c : Char) : Bool :=
  c.isAlphanum || c == '_'

/-- A block comment after its opening: all up to and with the first closing mark, or all there
is. -/
def blockComment : List Char → List Char × List Char
  | [] => ([], [])
  | '*' :: '/' :: rest => (['*', '/'], rest)
  | c :: cs => (c :: (blockComment cs).1, (blockComment cs).2)

def scanNumber (first : Char) (cs : List Char) : Scan :=
  let whole := first :: cs.takeWhile Char.isDigit
  match cs.dropWhile Char.isDigit with
  | '.' :: rest =>
    let fraction := rest.takeWhile Char.isDigit
    .segment (.float (Decimal.ofParts whole fraction 0).toFloat) (whole ++ '.' :: fraction)
      (rest.dropWhile Char.isDigit)
  | rest => .segment (.number (Number.ofDigits whole)) whole rest

def scanWord (first : Char) (cs : List Char) : Scan :=
  let word := first :: cs.takeWhile isWordPart
  .segment (Token.ofWord (String.ofList word)) word (cs.dropWhile isWordPart)

/-- Marks and operators; an operator of two characters wins over one of a single character. -/
def scanSymbol (first : Char) (cs : List Char) : Scan :=
  match cs with
  | second :: rest =>
    match Operator.ofPair? first second with
    | some op => .segment (.operator op) [first, second] rest
    | none => single
  | [] => single
where
  single : Scan :=
    match Operator.ofChar? first, Mark.ofChar? first with
    | some op, _ => .segment (.operator op) [first] cs
    | none, some m => .segment (.mark m) [first] cs
    | none, none => .stray first

/-- Cuts the first segment off a source text and counts the line breaks on the way. -/
def countedScan (first : Char) (cs : List Char) : Scan × Nat :=
  if first == '\n' then (.segment (.trivia .lineBreak) [first] cs, 1)
  else if Text.isBlank first || first == '\uFEFF' then (.segment (.trivia .blank) [first] cs, 0)
  else if first.isDigit then (scanNumber first cs, 0)
  else if isWordStart first then (scanWord first cs, 0)
  else if first == '\x22' || first == '\x27' then
    (.ofText first (countedText first cs).1, (countedText first cs).2)
  else match first, cs with
    | '/', '/' :: rest =>
      (.segment (.trivia .lineComment) ('/' :: '/' :: rest.takeWhile (· != '\n'))
        (rest.dropWhile (· != '\n')), 0)
    | '/', '*' :: rest =>
      (.segment (.trivia .blockComment) ('/' :: '*' :: (blockComment rest).1) (blockComment rest).2,
        (blockComment rest).1.count '\n')
    | _, _ => (scanSymbol first cs, 0)

/-- What stands first in a source text. -/
def scan (first : Char) (cs : List Char) : Scan :=
  (countedScan first cs).1

/-! ### Segments tile the source -/

theorem blockComment_append (cs : List Char) : (blockComment cs).1 ++ (blockComment cs).2 = cs := by
  fun_induction blockComment cs with
  | case1 => rfl
  | case2 rest => rfl
  | case3 c cs _ ih => simp [ih]

theorem TextScan.push_eq_done {c : Char} {spelling content text rest : List Char} {t : TextScan}
    (h : t.push c spelling = .done content text rest) :
    ∃ content' text', t = .done content' text' rest ∧ text = spelling ++ text' := by
  cases t with
  | done content' text' rest' =>
    simp only [push, done.injEq] at h
    exact ⟨content', text', by simp [h], h.2.1.symm⟩
  | badEscape => simp [push] at h

theorem scanText_append {quote : Char} {cs content text rest : List Char}
    (h : scanText quote cs = .done content text rest) : text ++ rest = cs := by
  unfold scanText at h
  fun_induction countedText quote cs generalizing content text with
  | case1 => simp_all
  | case2 =>
    obtain ⟨-, rfl, rfl⟩ := TextScan.done.inj h
    simp_all
  | case3 c cs _ _ ih =>
    obtain ⟨_, _, ht, rfl⟩ := TextScan.push_eq_done h
    simp [ih ht]
  | case4 => simp_all
  | case5 _ _ _ _ _ _ _ _ ih =>
    obtain ⟨_, _, ht, rfl⟩ := TextScan.push_eq_done h
    simp_all [ih ht]
  | case6 => simp at h
  | case7 => simp at h
  | case8 _ _ _ _ _ _ _ _ _ _ ih =>
    obtain ⟨_, _, ht, rfl⟩ := TextScan.push_eq_done h
    simp_all [ih ht]
  | case9 => simp at h
  | case10 => simp at h
  | case11 _ _ _ _ _ _ _ _ _ ih =>
    obtain ⟨_, _, ht, rfl⟩ := TextScan.push_eq_done h
    simp_all [ih ht]

/-- A segment starts with the first character of the source text, and nothing is lost after it. -/
def Scan.Tiles (first : Char) (cs : List Char) : Scan → Prop
  | .segment _ text rest => ∃ more, text = first :: more ∧ more ++ rest = cs
  | _ => True

theorem scanNumber_tiles (first : Char) (cs : List Char) :
    (scanNumber first cs).Tiles first cs := by
  unfold scanNumber
  split
  · next rest hd =>
    refine ⟨_, rfl, ?_⟩
    have := List.takeWhile_append_dropWhile (p := Char.isDigit) (l := cs)
    simp_all
  · exact ⟨_, rfl, by simp⟩

theorem scanWord_tiles (first : Char) (cs : List Char) : (scanWord first cs).Tiles first cs :=
  ⟨_, rfl, by simp⟩

theorem scanSymbol_tiles (first : Char) (cs : List Char) :
    (scanSymbol first cs).Tiles first cs := by
  have single : (scanSymbol.single first cs).Tiles first cs := by
    unfold scanSymbol.single
    split
    · exact ⟨_, rfl, rfl⟩
    · exact ⟨_, rfl, rfl⟩
    · trivial
  unfold scanSymbol
  split
  · split
    · exact ⟨_, rfl, rfl⟩
    · exact single
  · exact single

theorem scan_tiles (first : Char) (cs : List Char) : (scan first cs).Tiles first cs := by
  unfold scan countedScan
  split
  · exact ⟨_, rfl, rfl⟩
  split
  · exact ⟨_, rfl, rfl⟩
  split
  · exact scanNumber_tiles first cs
  split
  · exact scanWord_tiles first cs
  split
  · show (Scan.ofText first (scanText first cs)).Tiles first cs
    cases hs : scanText first cs with
    | done => exact ⟨_, rfl, scanText_append hs⟩
    | badEscape => trivial
  split
  · exact ⟨_, rfl, by simp⟩
  · exact ⟨_, rfl, by simp [blockComment_append]⟩
  · exact scanSymbol_tiles first cs

theorem length_rest_lt_of_scan {first : Char} {cs text rest : List Char} {token : Token}
    (h : scan first cs = .segment token text rest) : rest.length < (first :: cs).length := by
  have tiles := scan_tiles first cs
  rw [h] at tiles
  obtain ⟨more, -, rfl⟩ := tiles
  simp only [List.length_cons, List.length_append]
  omega

/-! ### Lexemes -/

/-- The lexemes of a source text whose first character is on the given line, numbered from
`index`. A token, and an error too, is on the line that scanning it has come to. -/
def lexFrom (line index : Nat) (source : List Char) : Except LexError (List Lexeme) :=
  match source with
  | [] => .ok []
  | first :: cs =>
    match h : countedScan first cs with
    | (.segment token text rest, lines) =>
      let line := line + lines
      if token.isTrivia then lexFrom line index rest
      else (lexFrom line (index + 1) rest).map (⟨token, line, index⟩ :: ·)
    | (.stray c, lines) => .error (.unexpectedCharacter c (line + lines))
    | (.badEscape sequence _, lines) =>
      .error (.invalidEscape (String.ofList sequence) (line + lines))
termination_by source.length
decreasing_by all_goals exact length_rest_lt_of_scan (congrArg Prod.fst h)

/-- The lexemes of a source text. -/
def lex (source : String) : Except LexError (List Lexeme) :=
  lexFrom 1 0 source.toList

/-- Tokens written with a space between each two. -/
def renderTokens (tokens : List Token) : String :=
  " ".intercalate (tokens.map Token.render)

end TagScript
