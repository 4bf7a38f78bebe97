import TagScript.Text.Radix

/-!
# JSON

A strict reader of JSON texts. Every reader gives back what is left of the text, which is shorter
than what it was given, so readers may call each other on the rest. Refused are raw controls in
strings, escapes that name no character, numbers that no real holds, and nesting beyond `maxNesting`
levels.
-/

namespace TagScript

inductive Json where
  | null
  | bool (b : Bool)
  | number
  | text (content : String)
  | array (items : List Json)
  | object (members : List (String × Json))

namespace Json

/-- What is left of a text of `n` characters. -/
abbrev Rest (n : Nat) := { rest : List Char // rest.length < n }

def maxNesting : Nat := 127

def isSpace (c : Char) : Bool :=
  c == ' ' || c == '\t' || c == '\n' || c == '\r'

def skipSpace (cs : List Char) : List Char :=
  cs.dropWhile isSpace

theorem length_dropWhile_le (p : Char → Bool) (cs : List Char) :
    (cs.dropWhile p).length ≤ cs.length :=
  (List.dropWhile_suffix p).length_le

theorem length_lt_of_skipSpace {cs rest : List Char} {c : Char} (h : skipSpace cs = c :: rest) :
    rest.length < cs.length := by
  have shorter := length_dropWhile_le isSpace cs
  rwa [← skipSpace, h] at shorter

/-! ### Strings -/

def simpleEscape? : Char → Option Char
  | '\x22' => some '\x22'
  | '\\' => some '\\'
  | '/' => some '/'
  | 'b' => some '\x08'
  | 'f' => some '\x0c'
  | 'n' => some '\n'
  | 'r' => some '\r'
  | 't' => some '\t'
  | _ => none

/-- The character that two surrogates stand for together. -/
def ofSurrogates? (high low : Nat) : Option Char :=
  if 0xD800 ≤ high ∧ high < 0xDC00 ∧ 0xDC00 ≤ low ∧ low < 0xE000 then
    some (Char.ofNat (0x10000 + (high - 0xD800) * 0x400 + (low - 0xDC00)))
  else none

def ofUnit? (n : Nat) : Option Char :=
  if n.isValidChar then some (Char.ofNat n) else none

/-- Puts a character before what was read of a shorter text. -/
def pushChar {m n : Nat} (c : Char) (h : m ≤ n) (read : List Char × Rest m) : List Char × Rest n :=
  (c :: read.1, ⟨read.2.1, Nat.lt_of_lt_of_le read.2.2 h⟩)

/-- Reads a string after its opening quote. -/
def readString (cs : List Char) : Option (List Char × Rest cs.length) :=
  match cs with
  | [] => none
  | '\x22' :: rest => some ([], ⟨rest, by simp⟩)
  | '\\' :: 'u' :: a :: b :: c :: d :: rest =>
    (Text.readDigits? 16 [a, b, c, d]).bind fun unit =>
      match ofUnit? unit with
      | some char => (readString rest).map (pushChar char (by simp; omega))
      | none =>
        match rest with
        | '\\' :: 'u' :: e :: f :: g :: h :: rest =>
          (Text.readDigits? 16 [e, f, g, h]).bind fun low =>
            (ofSurrogates? unit low).bind fun char =>
              (readString rest).map (pushChar char (by simp; omega))
        | _ => none
  | '\\' :: e :: rest =>
    (simpleEscape? e).bind fun char => (readString rest).map (pushChar char (by simp; omega))
  | c :: rest =>
    if c.toNat < 0x20 ∨ c = '\\' then none
    else (readString rest).map (pushChar c (by simp))

/-! ### Numbers -/

/-- Appends digits to a number for as long as a word of 64 bits without sign takes it, and counts
the digits that are left. -/
def appendDigits (start : Nat) (digits : List Char) : Nat × Nat :=
  digits.foldl (fun (n, dropped) c =>
    let next := 10 * n + (c.toNat - 48)
    if dropped = 0 ∧ next < UInt64.size then (next, 0) else (n, dropped + 1)) (start, 0)

/-- Whether a real holds a number with these digits before and after the point. -/
def inRange (whole fraction : List Char) (exponent : Int) : Bool :=
  let (n, dropped) := appendDigits 0 whole
  let (n, ignored) := appendDigits n fraction
  let power := exponent + dropped - (fraction.length - ignored : Nat)
  n == 0 || power < 0 ||
    (power ≤ 308 && !(Float.ofNat n * Float.ofScientific 1 false power.toNat).isInf)

/-- A run of digits and what is left; there must be at least one. -/
def readRun (cs : List Char) : Option (List Char × Rest cs.length) :=
  match cs with
  | [] => none
  | c :: rest =>
    if c.isDigit then
      some (c :: rest.takeWhile Char.isDigit,
        ⟨rest.dropWhile Char.isDigit, Nat.lt_succ_of_le (length_dropWhile_le _ rest)⟩)
    else none

/-- Reads a number without its sign. -/
def readUnsigned (cs : List Char) : Option (Rest cs.length) := do
  let (whole, ⟨rest, h⟩) ← readRun cs
  if whole.head? = some '0' ∧ 1 < whole.length then none
  else
    let (fraction, ⟨rest, h⟩) ← fractionPart rest h
    let (exponent, rest) ← exponentPart rest h
    if inRange whole fraction exponent then some rest else none
where
  fractionPart (rest : List Char) (h : rest.length < cs.length) :
      Option (List Char × Rest cs.length) :=
    match rest with
    | '.' :: more => (readRun more).map fun (digits, r) =>
      (digits, ⟨r.1, by have := r.2; simp at h; omega⟩)
    | rest => some ([], ⟨rest, h⟩)
  exponentPart (rest : List Char) (h : rest.length < cs.length) : Option (Int × Rest cs.length) :=
    let signed (sign : Int) (more : List Char) (h : more.length < cs.length) :
        Option (Int × Rest cs.length) :=
      (readRun more).map fun (digits, r) =>
        (sign * (Nat.ofDigitChars 10 digits 0 : Int), ⟨r.1, by have := r.2; omega⟩)
    let afterMark (more : List Char) (h : more.length < cs.length) :
        Option (Int × Rest cs.length) :=
      match more with
      | '-' :: more => signed (-1) more (by simp at h; omega)
      | '+' :: more => signed 1 more (by simp at h; omega)
      | more => signed 1 more h
    match rest with
    | 'e' :: more => afterMark more (by simp at h; omega)
    | 'E' :: more => afterMark more (by simp at h; omega)
    | rest => some (0, ⟨rest, h⟩)

def readNumber (cs : List Char) : Option (Rest cs.length) :=
  match cs with
  | '-' :: more => (readUnsigned more).map fun r => ⟨r.1, Nat.lt_succ_of_lt r.2⟩
  | cs => readUnsigned cs

/-! ### Values -/

/-- Takes a fixed text off the front. -/
def readWord (word : List Char) (cs : List Char) : Option (Rest cs.length) :=
  if word.isPrefixOf cs ∧ word ≠ [] then
    if h : (cs.drop word.length).length < cs.length then some ⟨_, h⟩ else none
  else none

/-- Reads a value without parts other than a string. -/
def readScalar (cs : List Char) : Option (Json × Rest cs.length) :=
  (readWord "null".toList cs).map (.null, ·) <|>
    (readWord "true".toList cs).map (.bool true, ·) <|>
    (readWord "false".toList cs).map (.bool false, ·) <|>
    (readNumber cs).map (.number, ·)

mutual

/-- Reads a value, with `levels` levels of nesting to go. -/
def readValue (levels : Nat) (cs : List Char) : Option (Json × Rest cs.length) :=
  match h : skipSpace cs with
  | [] => none
  | '\x22' :: rest => do
    let (chars, ⟨rest', h'⟩) ← readString rest
    some (.text (String.ofList chars), ⟨rest', Nat.lt_trans h' (length_lt_of_skipSpace h)⟩)
  | '[' :: rest =>
    have shorter := length_lt_of_skipSpace h
    if levels = 0 then none
    else
      match h' : skipSpace rest with
      | ']' :: more => some (.array [], ⟨more, Nat.lt_trans (length_lt_of_skipSpace h') shorter⟩)
      | _ => do
        let (items, ⟨rest', h'⟩) ← readItems (levels - 1) rest
        some (.array items, ⟨rest', Nat.lt_trans h' shorter⟩)
  | '\x7b' :: rest =>
    have shorter := length_lt_of_skipSpace h
    if levels = 0 then none
    else
      match h' : skipSpace rest with
      | '\x7d' :: more =>
        some (.object [], ⟨more, Nat.lt_trans (length_lt_of_skipSpace h') shorter⟩)
      | _ => do
        let (members, ⟨rest', h'⟩) ← readMembers (levels - 1) rest
        some (.object members, ⟨rest', Nat.lt_trans h' shorter⟩)
  | c :: rest =>
    (readScalar (c :: rest)).map fun (value, r) =>
      (value, ⟨r.1, Nat.lt_of_lt_of_le r.2 (length_lt_of_skipSpace h)⟩)
termination_by 2 * cs.length

/-- Reads the items of an array that has some, and its closing bracket. -/
def readItems (levels : Nat) (cs : List Char) : Option (List Json × Rest cs.length) := do
  let (first, ⟨rest, fewer⟩) ← readValue levels cs
  match h : skipSpace rest with
  | ',' :: more =>
    have shorter := Nat.lt_trans (length_lt_of_skipSpace h) fewer
    let (items, ⟨rest', h'⟩) ← readItems levels more
    some (first :: items, ⟨rest', Nat.lt_trans h' shorter⟩)
  | ']' :: more => some ([first], ⟨more, Nat.lt_trans (length_lt_of_skipSpace h) fewer⟩)
  | _ => none
termination_by 2 * cs.length + 1

/-- Reads the members of an object that has some, and its closing brace. -/
def readMembers (levels : Nat) (cs : List Char) :
    Option (List (String × Json) × Rest cs.length) :=
  match h : skipSpace cs with
  | '\x22' :: rest => do
    let (name, ⟨rest₁, h₁⟩) ← readString rest
    match h₂ : skipSpace rest₁ with
    | ':' :: rest₂ =>
      have fewer₁ := Nat.lt_trans h₁ (length_lt_of_skipSpace h)
      have fewer₂ := Nat.lt_trans (length_lt_of_skipSpace h₂) fewer₁
      let (value, ⟨rest₃, h₃⟩) ← readValue levels rest₂
      match h₄ : skipSpace rest₃ with
      | ',' :: rest₄ =>
        have fewer₄ := Nat.lt_trans (length_lt_of_skipSpace h₄) (Nat.lt_trans h₃ fewer₂)
        let (members, ⟨rest₅, h₅⟩) ← readMembers levels rest₄
        some ((String.ofList name, value) :: members, ⟨rest₅, Nat.lt_trans h₅ fewer₄⟩)
      | '\x7d' :: rest₄ =>
        some ([(String.ofList name, value)],
          ⟨rest₄, Nat.lt_trans (length_lt_of_skipSpace h₄) (Nat.lt_trans h₃ fewer₂)⟩)
      | _ => none
    | _ => none
  | _ => none
termination_by 2 * cs.length + 1

end

/-- Reads a whole text. -/
def read? (text : String) : Option Json := do
  let (value, ⟨rest, _⟩) ← readValue maxNesting text.toList
  if (skipSpace rest).isEmpty then some value else none

end Json

end TagScript
