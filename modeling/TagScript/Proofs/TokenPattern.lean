import TagScript.Token.Lexer

/-!
# Token patterns

`Token.Pattern` lists the tokens with the spellings that their patterns match, and `LongestMatch`
says that a token wins at a place: no pattern matches more, and keywords go before identifiers.
Texts have no pattern here, since a text ends where its quote does.

The lemmas `longestMatch_number`, `longestMatch_float`, `longestMatch_word` and
`longestMatch_symbol` say what has to follow a token for it to win.
-/

namespace TagScript

/-! ### Patterns -/

/-- The token has a pattern that matches the characters. The pattern of identifiers matches keywords
too. -/
inductive Token.Pattern : Token → List Char → Prop
  | number {w : List Char} : w ≠ [] → (∀ c ∈ w, c.isDigit = true) →
    Pattern (.number (.ofDigits w)) w
  | float {whole fraction : List Char} : whole ≠ [] → (∀ c ∈ whole, c.isDigit = true) →
    (∀ c ∈ fraction, c.isDigit = true) →
      Pattern (.float (Decimal.ofParts whole fraction 0).toFloat) (whole ++ '.' :: fraction)
  | identifier {first : Char} {w : List Char} : isWordStart first = true →
    (∀ c ∈ w, isWordPart c = true) →
      Pattern (.identifier (String.ofList (first :: w))) (first :: w)
  | type (t : TypeWord) : Pattern (.type t) t.keyword.toList
  | bool (b : Bool) : Pattern (.bool b) (if b then "true" else "false").toList
  | reserved (r : Reserved) : Pattern (.reserved r) r.word.toList
  | operator (op : Operator) : Pattern (.operator op) op.symbol.toList
  | mark (m : Mark) : Pattern (.mark m) [m.char]

/-- A token spelled `w` before `rest`, where no token has a longer spelling, and where no token but
an identifier has the same. -/
structure LongestMatch (t : Token) (w rest : List Char) : Prop where
  pattern : t.Pattern w
  longest : ∀ (t' : Token) w', t'.Pattern w' → w' <+: w ++ rest → w'.length ≤ w.length
  keyword : ∀ t' : Token, t'.Pattern w → t' = t ∨ ∃ name, t' = .identifier name

def IsQuote (c : Char) : Prop :=
  c = '\x22' ∨ c = '\x27'

/-! ### Characters -/

theorem isDigit_iff_toNat {c : Char} : c.isDigit = true ↔ 48 ≤ c.toNat ∧ c.toNat ≤ 57 :=
  Char.isDigit_iff_toNat

theorem isWordStart_iff_toNat {c : Char} : isWordStart c = true ↔
    65 ≤ c.toNat ∧ c.toNat ≤ 90 ∨ 97 ≤ c.toNat ∧ c.toNat ≤ 122 ∨ c.toNat = 95 := by
  have halpha : c.isAlpha = true ↔
      65 ≤ c.toNat ∧ c.toNat ≤ 90 ∨ 97 ≤ c.toNat ∧ c.toNat ≤ 122 := by
    delta Char.isAlpha Char.isUpper Char.isLower
    simp only [Bool.or_eq_true, Bool.and_eq_true, decide_eq_true_eq, ge_iff_le,
      UInt32.le_iff_toNat_le]
    rfl
  have hunderscore : c = '_' ↔ c.toNat = 95 := Char.toNat_inj.symm
  rw [isWordStart, Bool.or_eq_true, beq_iff_eq, halpha, hunderscore, or_assoc]

theorem isWordStart_of_isDigit {c : Char} (h : c.isDigit = true) : isWordStart c = false := by
  rw [← Bool.not_eq_true, isWordStart_iff_toNat]
  rw [isDigit_iff_toNat] at h
  omega

/-! ### What starts like a token -/

namespace Token.Pattern

variable {t : Token} {first : Char} {w : List Char}

/-- Only numbers and floats start with a digit. -/
theorem of_digit (h : t.Pattern (first :: w)) (hfirst : first.isDigit = true) :
    (t = .number (.ofDigits (first :: w)) ∧ ∀ c ∈ first :: w, c.isDigit = true) ∨
      ∃ whole fraction, first :: w = whole ++ '.' :: fraction ∧ whole ≠ [] ∧
        (∀ c ∈ whole, c.isDigit = true) ∧ (∀ c ∈ fraction, c.isDigit = true) ∧
          t = .float (Decimal.ofParts whole fraction 0).toFloat := by
  generalize hw : first :: w = text at h
  cases h with
  | number _ hdigits => exact .inl ⟨rfl, hdigits⟩
  | float hne hwhole hfraction => exact .inr ⟨_, _, rfl, hne, hwhole, hfraction, rfl⟩
  | identifier hstart =>
    cases hw
    rw [isWordStart_of_isDigit hfirst] at hstart
    cases hstart
  | type t => cases t <;> cases hw <;> cases hfirst
  | bool b => cases b <;> cases hw <;> cases hfirst
  | reserved r => cases r <;> cases hw <;> cases hfirst
  | operator op => cases op <;> cases hw <;> cases hfirst
  | mark m => cases m <;> cases hw <;> cases hfirst

/-- What starts like a word is a word. -/
theorem of_wordStart (h : t.Pattern (first :: w)) (hfirst : isWordStart first = true) :
    ∀ c ∈ w, isWordPart c = true := by
  generalize hw : first :: w = text at h
  cases h with
  | @number w' _ hdigits =>
    have hdigit := hdigits first (hw ▸ List.mem_cons_self ..)
    rw [isWordStart_of_isDigit hdigit] at hfirst
    cases hfirst
  | @float whole fraction hne hwhole _ =>
    obtain ⟨c, more, rfl⟩ := List.exists_cons_of_ne_nil hne
    obtain ⟨rfl, -⟩ := List.cons.inj hw
    rw [isWordStart_of_isDigit (hwhole first (List.mem_cons_self ..))] at hfirst
    cases hfirst
  | identifier _ hparts =>
    cases hw
    exact hparts
  | type t => cases t <;> cases hw <;> exact List.all_eq_true.1 rfl
  | bool b => cases b <;> cases hw <;> exact List.all_eq_true.1 rfl
  | reserved r => cases r <;> cases hw <;> exact List.all_eq_true.1 rfl
  | operator op => cases op <;> cases hw <;> cases hfirst
  | mark m => cases m <;> cases hw <;> cases hfirst

/-- What starts neither like a number nor like a word is an operator or a mark. -/
theorem of_symbol (h : t.Pattern (first :: w)) (hdigit : first.isDigit = false)
    (hword : isWordStart first = false) :
    (∃ op, t = .operator op ∧ op.symbol.toList = first :: w) ∨
      ∃ m, t = .mark m ∧ [m.char] = first :: w := by
  generalize hw : first :: w = text at h
  cases h with
  | @number w' _ hdigits =>
    rw [hdigits first (hw ▸ List.mem_cons_self ..)] at hdigit
    cases hdigit
  | @float whole fraction hne hwhole _ =>
    obtain ⟨c, more, rfl⟩ := List.exists_cons_of_ne_nil hne
    obtain ⟨rfl, -⟩ := List.cons.inj hw
    rw [hwhole first (List.mem_cons_self ..)] at hdigit
    cases hdigit
  | identifier hstart =>
    cases hw
    rw [hstart] at hword
    cases hword
  | type t => cases t <;> cases hw <;> cases hword
  | bool b => cases b <;> cases hw <;> cases hword
  | reserved r => cases r <;> cases hw <;> cases hword
  | operator op => exact .inl ⟨op, rfl, rfl⟩
  | mark m => exact .inr ⟨m, rfl, rfl⟩

theorem ne_nil (h : t.Pattern w) : w ≠ [] := by
  cases h with
  | number hne => exact hne
  | float => exact List.append_ne_nil_of_right_ne_nil _ (List.cons_ne_nil _ _)
  | identifier => exact List.cons_ne_nil _ _
  | type t => cases t <;> decide
  | bool b => cases b <;> decide
  | reserved r => cases r <;> decide
  | operator op => cases op <;> decide
  | mark => exact List.cons_ne_nil _ _

theorem not_quote (h : t.Pattern (first :: w)) : ¬ IsQuote first := by
  intro hquote
  have hsymbol := h.of_symbol
  rcases hquote with rfl | rfl
  all_goals
    rcases hsymbol rfl rfl with ⟨op, -, hop⟩ | ⟨m, -, hm⟩
    · cases op <;> cases hop
    · cases m <;> cases hm

theorem not_trivia (h : t.Pattern w) : t.isTrivia = false := by
  cases h <;> rfl

theorem name_eq {name : String} (h : Pattern (.identifier name) w) : name = String.ofList w := by
  cases h
  rfl

end Token.Pattern

/-! ### Numbers -/

theorem length_le_takeWhile {p : Char → Bool} {w cs : List Char} (h : w <+: cs)
    (hp : ∀ c ∈ w, p c = true) : w.length ≤ (cs.takeWhile p).length := by
  obtain ⟨rest, rfl⟩ := h
  rw [List.takeWhile_append_of_pos hp, List.length_append]
  exact Nat.le_add_right _ _

theorem forall_mem_takeWhile (p : Char → Bool) (cs : List Char) :
    ∀ c ∈ cs.takeWhile p, p c = true :=
  List.all_eq_true.1 List.all_takeWhile

/-- What follows the digits at the front of a source text is the same however many of them are
counted in. -/
theorem dropWhile_of_append {p : Char → Bool} {w cs : List Char} {c : Char} {rest : List Char}
    (hp : ∀ c ∈ w, p c = true) (hc : p c = false) (h : w ++ c :: rest = cs) :
    cs.takeWhile p = w ∧ cs.dropWhile p = c :: rest := by
  subst h
  rw [List.takeWhile_append_of_pos hp, List.dropWhile_append_of_pos hp,
    List.takeWhile_cons_of_neg (by simp [hc]), List.dropWhile_cons_of_neg (by simp [hc]),
    List.append_nil]
  exact ⟨rfl, rfl⟩

theorem longestMatch_number {w rest : List Char} (hne : w ≠ [])
    (hw : ∀ c ∈ w, c.isDigit = true)
    (hrest : ∀ c, rest.head? = some c → c.isDigit = false ∧ c ≠ '.') :
    LongestMatch (.number (.ofDigits w)) w rest := by
  obtain ⟨first, more, rfl⟩ := List.exists_cons_of_ne_nil hne
  have hfirst := hw first (List.mem_cons_self ..)
  have htake : (first :: more ++ rest).takeWhile Char.isDigit = first :: more := by
    rw [List.takeWhile_append_of_pos hw]
    cases rest with
    | nil => simp
    | cons c rest => simp [(hrest c rfl).1]
  refine ⟨.number hne hw, fun t' w' hpattern hprefix => ?_, fun t' hpattern => ?_⟩
  · obtain ⟨c, more', rfl⟩ := List.exists_cons_of_ne_nil hpattern.ne_nil
    obtain ⟨rest', heq⟩ := hprefix
    obtain ⟨rfl, -⟩ := List.cons.inj heq
    rcases hpattern.of_digit hfirst with ⟨-, hdigits⟩ | ⟨whole, fraction, hw', -, hwhole, -, -⟩
    · have hle := length_le_takeWhile ⟨rest', heq⟩ hdigits
      rwa [htake] at hle
    · -- the point would have to stand right after the digits
      rw [hw', List.append_assoc, List.cons_append] at heq
      obtain ⟨htake', hdrop⟩ := dropWhile_of_append hwhole rfl heq
      rw [List.dropWhile_append_of_pos hw] at hdrop
      cases rest with
      | nil => cases hdrop
      | cons d rest =>
        rw [List.dropWhile_cons_of_neg (by simp [(hrest d rfl).1])] at hdrop
        exact absurd (List.cons.inj hdrop).1 (hrest d rfl).2
  · rcases hpattern.of_digit hfirst with ⟨rfl, -⟩ | ⟨whole, fraction, hw', -⟩
    · exact .inl rfl
    · have hpoint := hw '.' (hw' ▸ List.mem_append_right _ (List.mem_cons_self ..))
      cases hpoint

theorem longestMatch_float {whole fraction rest : List Char} (hne : whole ≠ [])
    (hwhole : ∀ c ∈ whole, c.isDigit = true) (hfraction : ∀ c ∈ fraction, c.isDigit = true)
    (hrest : ∀ c, rest.head? = some c → c.isDigit = false) :
    LongestMatch (.float (Decimal.ofParts whole fraction 0).toFloat) (whole ++ '.' :: fraction)
      rest := by
  have hpattern : Token.Pattern _ _ := .float hne hwhole hfraction
  obtain ⟨first, more, rfl⟩ := List.exists_cons_of_ne_nil hne
  have hfirst := hwhole first (List.mem_cons_self ..)
  have htake : (fraction ++ rest).takeWhile Char.isDigit = fraction := by
    rw [List.takeWhile_append_of_pos hfraction]
    cases rest with
    | nil => simp
    | cons c rest => simp [hrest c rfl]
  -- a second float spelled here has the same digits before the point
  have hsame {whole' fraction' rest' : List Char} (hwhole' : ∀ c ∈ whole', c.isDigit = true)
      (heq : whole' ++ '.' :: (fraction' ++ rest') = first :: more ++ '.' :: (fraction ++ rest)) :
      whole' = first :: more ∧ fraction' ++ rest' = fraction ++ rest := by
    obtain ⟨h, hdrop⟩ := dropWhile_of_append hwhole' rfl heq
    obtain ⟨h', hdrop'⟩ := dropWhile_of_append (c := '.') hwhole rfl rfl
    exact ⟨h.symm.trans h', (List.cons.inj (hdrop.symm.trans hdrop')).2⟩
  refine ⟨hpattern, fun t' w' hpattern' hprefix => ?_, fun t' hpattern' => ?_⟩
  · obtain ⟨c, more', rfl⟩ := List.exists_cons_of_ne_nil hpattern'.ne_nil
    obtain ⟨rest', heq⟩ := hprefix
    obtain ⟨rfl, -⟩ := List.cons.inj heq
    rcases hpattern'.of_digit hfirst with ⟨-, hdigits⟩ |
      ⟨whole', fraction', hw', -, hwhole', hfraction', -⟩
    · have hle := length_le_takeWhile ⟨rest', heq⟩ hdigits
      rw [List.append_assoc, List.takeWhile_append_of_pos hwhole] at hle
      simp only [List.length_append, List.length_cons] at hle ⊢
      simp at hle
      omega
    · rw [hw', List.append_assoc, List.append_assoc, List.cons_append, List.cons_append] at heq
      obtain ⟨rfl, hfractions⟩ := hsame hwhole' heq
      have hle := length_le_takeWhile ⟨rest', hfractions⟩ hfraction'
      rw [htake] at hle
      rw [hw']
      simp only [List.length_append, List.length_cons]
      omega
  · rcases hpattern'.of_digit hfirst with ⟨-, hdigits⟩ |
      ⟨whole', fraction', hw', -, hwhole', -, rfl⟩
    · have hpoint := hdigits '.' (List.mem_append_right (first :: more) (List.mem_cons_self ..))
      cases hpoint
    · have heq : whole' ++ '.' :: (fraction' ++ rest) =
          first :: more ++ '.' :: (fraction ++ rest) := by
        have h := congrArg (· ++ rest) hw'.symm
        simpa using h
      obtain ⟨rfl, hfractions⟩ := hsame hwhole' heq
      obtain rfl := List.append_cancel_right hfractions
      exact .inl rfl

/-! ### Words -/

namespace Token

theorem ofWord_type (t : TypeWord) : ofWord t.keyword = .type t := by
  cases t <;> rfl

theorem ofWord_reserved (r : Reserved) : ofWord r.word = .reserved r := by
  cases r <;> rfl

theorem ofWord_bool (b : Bool) : ofWord (if b then "true" else "false") = .bool b := by
  cases b <;> rfl

theorem keyword_eq_of_ofKeyword? {word : String} {t : TypeWord}
    (h : TypeWord.ofKeyword? word = some t) : t.keyword = word := by
  unfold TypeWord.ofKeyword? at h
  simpa using List.find?_some h

theorem word_eq_of_ofWord? {word : String} {r : Reserved} (h : Reserved.ofWord? word = some r) :
    r.word = word := by
  unfold Reserved.ofWord? at h
  simpa using List.find?_some h

theorem pattern_ofWord {first : Char} {w : List Char} (hfirst : isWordStart first = true)
    (hw : ∀ c ∈ w, isWordPart c = true) :
    (ofWord (String.ofList (first :: w))).Pattern (first :: w) := by
  have hspelled {word : String} {t : Token} (h : t.Pattern word.toList)
      (hword : word = String.ofList (first :: w)) : t.Pattern (first :: w) := by
    rwa [hword, String.toList_ofList] at h
  unfold ofWord
  split
  · next t htype => exact hspelled (.type t) (keyword_eq_of_ofKeyword? htype)
  · next r _ hreserved => exact hspelled (.reserved r) (word_eq_of_ofWord? hreserved)
  · split
    · next h => exact hspelled (.bool true) (beq_iff_eq.1 h).symm
    · split
      · next h => exact hspelled (.bool false) (beq_iff_eq.1 h).symm
      · exact .identifier hfirst hw

/-- A token spelled like a word is the token of that word, unless it is an identifier. -/
theorem Pattern.eq_ofWord {t : Token} {first : Char} {w : List Char}
    (h : t.Pattern (first :: w)) (hfirst : isWordStart first = true) :
    t = ofWord (String.ofList (first :: w)) ∨ ∃ name, t = .identifier name := by
  have hdigit : first.isDigit = false := by
    rw [← Bool.not_eq_true]
    intro hdigit
    rw [isWordStart_of_isDigit hdigit] at hfirst
    cases hfirst
  generalize hw : first :: w = text at h ⊢
  cases h with
  | @number w' _ hdigits =>
    rw [hdigits first (hw ▸ List.mem_cons_self ..)] at hdigit
    cases hdigit
  | @float whole fraction hne hwhole _ =>
    obtain ⟨c, more, rfl⟩ := List.exists_cons_of_ne_nil hne
    obtain ⟨rfl, -⟩ := List.cons.inj hw
    rw [hwhole first (List.mem_cons_self ..)] at hdigit
    cases hdigit
  | identifier => exact .inr ⟨_, rfl⟩
  | type t => exact .inl (by rw [String.ofList_toList, ofWord_type])
  | bool b => exact .inl (by rw [String.ofList_toList, ofWord_bool])
  | reserved r => exact .inl (by rw [String.ofList_toList, ofWord_reserved])
  | operator op => cases op <;> cases hw <;> cases hfirst
  | mark m => cases m <;> cases hw <;> cases hfirst

end Token

theorem longestMatch_word {first : Char} {w rest : List Char} (hfirst : isWordStart first = true)
    (hw : ∀ c ∈ w, isWordPart c = true)
    (hrest : ∀ c, rest.head? = some c → isWordPart c = false) :
    LongestMatch (.ofWord (String.ofList (first :: w))) (first :: w) rest := by
  have htake : (w ++ rest).takeWhile isWordPart = w := by
    rw [List.takeWhile_append_of_pos hw]
    cases rest with
    | nil => simp
    | cons c rest => simp [hrest c rfl]
  refine ⟨Token.pattern_ofWord hfirst hw, fun t' w' hpattern hprefix => ?_, fun t' hpattern => ?_⟩
  · obtain ⟨c, more, rfl⟩ := List.exists_cons_of_ne_nil hpattern.ne_nil
    obtain ⟨rest', heq⟩ := hprefix
    obtain ⟨rfl, heq'⟩ := List.cons.inj heq
    have hle := length_le_takeWhile ⟨rest', heq'⟩ (hpattern.of_wordStart hfirst)
    rw [show w.append rest = w ++ rest from rfl, htake] at hle
    exact Nat.succ_le_succ hle
  · exact hpattern.eq_ofWord hfirst

/-! ### Operators and marks -/

namespace Operator

theorem ofPair?_eq_some_iff {op : Operator} {c d : Char} :
    ofPair? c d = some op ↔ op.symbol.toList = [c, d] := by
  constructor
  · intro h
    unfold ofPair? at h
    split at h <;> cases h <;> rfl
  · intro h
    cases op <;> cases h <;> rfl

theorem ofChar?_eq_some_iff {op : Operator} {c : Char} :
    ofChar? c = some op ↔ op.symbol.toList = [c] := by
  constructor
  · intro h
    unfold ofChar? at h
    split at h <;> cases h <;> rfl
  · intro h
    cases op <;> cases h <;> rfl

theorem symbol_inj {op op' : Operator} (h : op.symbol.toList = op'.symbol.toList) : op = op' := by
  have hread (op : Operator) : ofSymbol? op.symbol = some op := by cases op <;> rfl
  have hsymbol : op.symbol = op'.symbol := String.toList_inj.1 h
  have hsome := hread op
  rw [hsymbol, hread op'] at hsome
  exact (Option.some.inj hsome).symm

theorem length_symbol (op : Operator) : op.symbol.toList.length ≤ 2 := by
  cases op <;> decide

end Operator

theorem Mark.ofChar?_eq_some_iff {m : Mark} {c : Char} : Mark.ofChar? c = some m ↔ m.char = c := by
  constructor
  · intro h
    unfold Mark.ofChar? at h
    split at h <;> cases h <;> rfl
  · rintro rfl
    cases m <;> rfl

/-- No character spells both an operator and a mark. -/
theorem symbol_ne_char (op : Operator) (m : Mark) : op.symbol.toList ≠ [m.char] := by
  cases op <;> cases m <;> decide

/-- A symbol wins unless two characters there spell an operator. -/
theorem longestMatch_symbol {t : Token} {first : Char} {w rest : List Char}
    (h : t.Pattern (first :: w)) (hdigit : first.isDigit = false)
    (hword : isWordStart first = false)
    (hpair : ∀ second, (w ++ rest).head? = some second →
      ∀ op, Operator.ofPair? first second = some op → w = [second]) :
    LongestMatch t (first :: w) rest := by
  refine ⟨h, fun t' w' hpattern hprefix => ?_, fun t' hpattern => .inl ?_⟩
  · obtain ⟨c, more, rfl⟩ := List.exists_cons_of_ne_nil hpattern.ne_nil
    obtain ⟨rest', heq⟩ := hprefix
    obtain ⟨rfl, heq'⟩ := List.cons.inj heq
    rcases hpattern.of_symbol hdigit hword with ⟨op, -, hop⟩ | ⟨m, -, hm⟩
    · match more with
      | [] => simp
      | [second] =>
        have hsecond : (w ++ rest).head? = some second := congrArg List.head? heq'.symm
        have hw := hpair second hsecond op (Operator.ofPair?_eq_some_iff.2 hop)
        exact Nat.le_of_eq (by rw [hw])
      | _ :: _ :: _ =>
        have hlength := op.length_symbol
        rw [hop] at hlength
        simp at hlength
    · obtain ⟨-, rfl⟩ := List.cons.inj hm
      simp
  · rcases h.of_symbol hdigit hword with ⟨op, rfl, hop⟩ | ⟨m, rfl, hm⟩
    · rcases hpattern.of_symbol hdigit hword with ⟨op', rfl, hop'⟩ | ⟨m', rfl, hm'⟩
      · rw [Operator.symbol_inj (hop'.trans hop.symm)]
      · exact absurd (hop.trans hm'.symm) (symbol_ne_char op m')
    · rcases hpattern.of_symbol hdigit hword with ⟨op', rfl, hop'⟩ | ⟨m', rfl, hm'⟩
      · exact absurd (hop'.trans hm.symm) (symbol_ne_char op' m)
      · have hchar : m'.char = m.char := (List.cons.inj (hm'.trans hm.symm)).1
        have hmark := Mark.ofChar?_eq_some_iff.2 hchar
        rw [Mark.ofChar?_eq_some_iff.2 rfl] at hmark
        rw [Option.some.inj hmark]

end TagScript
