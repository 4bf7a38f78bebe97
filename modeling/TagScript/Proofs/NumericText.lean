import TagScript.Proofs.RealOrder
import TagScript.Proofs.TextLiteral

/-!
# Texts that count as numbers

`NumericText` is the grammar of the texts that numbers are written as: numerals of base ten with an
optional sign, fraction and exponent, infinity, and digits of base sixteen, eight or two behind a
mark; the empty text belongs to it. A text counts as a number just if what is left of it without the
blanks at its ends is of this grammar, but for two exceptions behind a mark of base
(`text_number_iff`, `based_numeral_exceptions`).
-/

namespace TagScript

/-! ### The grammar -/

def IsDigits (w : List Char) : Prop :=
  ∀ c ∈ w, c.isDigit = true

/-- A sign, or none. -/
def IsSign (w : List Char) : Prop :=
  w = [] ∨ w = ['+'] ∨ w = ['-']

/-- Digits with a point before, between or after them, or without one. -/
inductive IsMantissa : List Char → Prop
  | whole {digits : List Char} : digits ≠ [] → IsDigits digits → IsMantissa digits
  | point {whole fraction : List Char} : IsDigits whole → IsDigits fraction →
    whole ++ fraction ≠ [] → IsMantissa (whole ++ '.' :: fraction)

inductive IsExponent : List Char → Prop
  | absent : IsExponent []
  | present {mark : Char} {sign digits : List Char} : mark = 'e' ∨ mark = 'E' → IsSign sign →
    digits ≠ [] → IsDigits digits → IsExponent (mark :: (sign ++ digits))

/-- An optional sign, a mantissa and an optional exponent. -/
def IsNumeral (w : List Char) : Prop :=
  ∃ sign mantissa exponent, w = sign ++ (mantissa ++ exponent) ∧ IsSign sign ∧
    IsMantissa mantissa ∧ IsExponent exponent

/-- The letters that may follow a zero, with the base of the digits after them. -/
def baseMarks : List (Char × Nat) :=
  [('x', 16), ('X', 16), ('o', 8), ('O', 8), ('b', 2), ('B', 2)]

/-- The texts that are written like numbers. -/
inductive NumericText : List Char → Prop
  | empty : NumericText []
  | infinity {sign : List Char} : IsSign sign → NumericText (sign ++ "Infinity".toList)
  | numeral {w : List Char} : IsNumeral w → NumericText w
  | based {mark : Char} {base : Nat} {digits : List Char} : (mark, base) ∈ baseMarks →
    digits ≠ [] → (∀ c ∈ digits, ∃ v, DigitIn base c v) → NumericText ('0' :: mark :: digits)

/-- Digits of another base that make up more than a word of 64 bits holds. -/
def BeyondWords (w : List Char) : Prop :=
  ∃ mark base digits n, (mark, base) ∈ baseMarks ∧ w = '0' :: mark :: digits ∧
    NumberIn base digits n ∧ 2 ^ 64 ≤ n

/-- A plus sign between the letter of a base and its digits. -/
def PlusInside (w : List Char) : Prop :=
  ∃ mark base digits n, (mark, base) ∈ baseMarks ∧ w = '0' :: mark :: '+' :: digits ∧
    digits ≠ [] ∧ NumberIn base digits n ∧ n < 2 ^ 64

/-! ### Signs -/

theorem splitSign_append {sign rest : List Char} (hsign : IsSign sign)
    (hrest : ∀ c ∈ rest.head?, c ≠ '+' ∧ c ≠ '-') :
    splitSign (sign ++ rest) = (decide (sign = ['-']), rest) := by
  rcases hsign with rfl | rfl | rfl
  · cases rest with
    | nil => rfl
    | cons c rest =>
      obtain ⟨hplus, hminus⟩ := hrest c rfl
      rw [List.nil_append, splitSign.eq_def]
      split
      · next h => exact absurd (List.cons.inj h).1 hminus
      · next h => exact absurd (List.cons.inj h).1 hplus
      · rfl
  · rfl
  · rfl

theorem exists_sign (w : List Char) :
    ∃ sign, IsSign sign ∧ w = sign ++ (splitSign w).2 := by
  unfold splitSign
  split
  · exact ⟨['-'], .inr (.inr rfl), rfl⟩
  · exact ⟨['+'], .inr (.inl rfl), rfl⟩
  · exact ⟨[], .inl rfl, rfl⟩

theorem IsDigits.not_sign {w : List Char} (h : IsDigits w) :
    ∀ c ∈ w.head?, c ≠ '+' ∧ c ≠ '-' := by
  intro c hc
  have hdigit := h c (List.mem_of_mem_head? hc)
  constructor <;> rintro rfl <;> cases hdigit

/-! ### Exponents and mantissas -/

theorem readExponent_present {mark : Char} {sign digits : List Char}
    (hmark : mark = 'e' ∨ mark = 'E') (hsign : IsSign sign) (hne : digits ≠ [])
    (hdigits : IsDigits digits) :
    readExponent (mark :: (sign ++ digits)) =
      some (if sign = ['-'] then -(exponentSize digits : Int) else exponentSize digits) := by
  have hmark : (mark == 'e' || mark == 'E') = true := by
    simpa using hmark
  have hall : digits.all Char.isDigit = true := List.all_eq_true.2 hdigits
  simp only [readExponent, splitSign_append hsign hdigits.not_sign, hmark, hall]
  simp [hne]

theorem isExponent_of_readExponent {w : List Char} {e : Int} (h : readExponent w = some e) :
    IsExponent w := by
  unfold readExponent at h
  split at h
  · exact .absent
  · next mark rest =>
    obtain ⟨sign, hsign, hrest⟩ := exists_sign rest
    rw [hrest]
    dsimp only at h
    split at h
    · next hvalid =>
      simp only [Bool.and_eq_true, Bool.or_eq_true, beq_iff_eq, Bool.not_eq_true',
        List.isEmpty_eq_false_iff] at hvalid
      exact .present hvalid.1.1 hsign hvalid.1.2 (List.all_eq_true.1 hvalid.2)
    · cases h

theorem readExponent_isSome_iff {w : List Char} :
    (readExponent w).isSome = true ↔ IsExponent w := by
  constructor
  · intro h
    obtain ⟨e, he⟩ := Option.isSome_iff_exists.1 h
    exact isExponent_of_readExponent he
  · rintro (_ | ⟨hmark, hsign, hne, hdigits⟩)
    · rfl
    · rw [readExponent_present hmark hsign hne hdigits]
      rfl

theorem IsExponent.head {w : List Char} (h : IsExponent w) :
    ∀ c ∈ w.head?, c.isDigit = false ∧ c ≠ '.' := by
  rintro c hc
  cases h with
  | absent => cases hc
  | present hmark =>
    obtain rfl := Option.some.inj hc
    rcases hmark with rfl | rfl <;> decide

theorem span_append {w rest : List Char} (hw : IsDigits w)
    (hrest : ∀ c ∈ rest.head?, c.isDigit = false) :
    (w ++ rest).span Char.isDigit = (w, rest) := by
  rw [List.span_eq_takeWhile_dropWhile, List.takeWhile_append_of_pos hw,
    List.dropWhile_append_of_pos hw]
  cases rest with
  | nil => simp
  | cons c rest => simp [hrest c rfl]

namespace Decimal

/-- The digits after a point, and what follows them. -/
def splitFraction : List Char → List Char × List Char
  | '.' :: rest => rest.span Char.isDigit
  | rest => ([], rest)

theorem read?_eq_of_split {w whole rest fraction exponent : List Char}
    (hwhole : w.span Char.isDigit = (whole, rest))
    (hfraction : splitFraction rest = (fraction, exponent)) :
    read? w = if whole.isEmpty && fraction.isEmpty then none
      else (readExponent exponent).map (ofParts whole fraction) := by
  have hread : read? w =
      if (w.span Char.isDigit).1.isEmpty && (splitFraction (w.span Char.isDigit).2).1.isEmpty then
        none
      else (readExponent (splitFraction (w.span Char.isDigit).2).2).map
        (ofParts (w.span Char.isDigit).1 (splitFraction (w.span Char.isDigit).2).1) :=
    rfl
  rw [hread, hwhole, hfraction]

theorem splitFraction_exponent {exponent : List Char} (h : IsExponent exponent) :
    splitFraction exponent = ([], exponent) := by
  unfold splitFraction
  split
  · exact absurd rfl (h.head '.' rfl).2
  · rfl

theorem read?_whole {w exponent : List Char} {e : Int} (hne : w ≠ []) (hw : IsDigits w)
    (he : readExponent exponent = some e) : read? (w ++ exponent) = some (ofParts w [] e) := by
  have hexponent := isExponent_of_readExponent he
  rw [read?_eq_of_split (span_append hw fun c hc => (hexponent.head c hc).1)
    (splitFraction_exponent hexponent), he]
  simp [hne]

theorem read?_point {whole fraction exponent : List Char} {e : Int} (hwhole : IsDigits whole)
    (hfraction : IsDigits fraction) (hne : whole ++ fraction ≠ [])
    (he : readExponent exponent = some e) :
    read? (whole ++ '.' :: (fraction ++ exponent)) = some (ofParts whole fraction e) := by
  have hexponent := isExponent_of_readExponent he
  have hsplit : splitFraction ('.' :: (fraction ++ exponent)) = (fraction, exponent) :=
    span_append hfraction fun c hc => (hexponent.head c hc).1
  rw [read?_eq_of_split (span_append hwhole (by simp)) hsplit, he]
  have hempty : ¬ (whole.isEmpty && fraction.isEmpty) = true := by
    simpa [List.isEmpty_iff] using hne
  rw [if_neg hempty]
  rfl

theorem isDigits_span {w digits rest : List Char} (h : w.span Char.isDigit = (digits, rest)) :
    IsDigits digits ∧ w = digits ++ rest := by
  rw [List.span_eq_takeWhile_dropWhile] at h
  obtain ⟨rfl, rfl⟩ := Prod.mk.inj h
  exact ⟨forall_mem_takeWhile _ w, List.takeWhile_append_dropWhile.symm⟩

theorem splitFraction_cases {w fraction rest : List Char} (h : splitFraction w = (fraction, rest)) :
    (fraction = [] ∧ w = rest) ∨ IsDigits fraction ∧ w = '.' :: (fraction ++ rest) := by
  unfold splitFraction at h
  split at h
  · obtain ⟨hdigits, rfl⟩ := isDigits_span h
    exact .inr ⟨hdigits, rfl⟩
  · obtain ⟨rfl, rfl⟩ := Prod.mk.inj h
    exact .inl ⟨rfl, rfl⟩

theorem exists_parts_of_read? {w : List Char} {d : Decimal} (h : read? w = some d) :
    ∃ mantissa exponent, w = mantissa ++ exponent ∧ IsMantissa mantissa ∧ IsExponent exponent := by
  cases hspan : w.span Char.isDigit with
  | mk whole rest =>
    cases hsplit : splitFraction rest with
    | mk fraction exponent =>
      rw [read?_eq_of_split hspan hsplit] at h
      obtain ⟨hwhole, rfl⟩ := isDigits_span hspan
      split at h
      · cases h
      · next hempty =>
        obtain ⟨e, he, -⟩ := Option.map_eq_some_iff.1 h
        have hexponent := isExponent_of_readExponent he
        rcases splitFraction_cases hsplit with ⟨rfl, rfl⟩ | ⟨hfraction, rfl⟩
        · exact ⟨whole, rest, rfl, .whole (by simpa using hempty) hwhole, hexponent⟩
        · have hne : whole ++ fraction ≠ [] := by
            simpa [List.isEmpty_iff] using hempty
          exact ⟨whole ++ '.' :: fraction, exponent, by simp, .point hwhole hfraction hne,
            hexponent⟩

theorem read?_isSome_iff {w : List Char} :
    (read? w).isSome = true ↔ ∃ mantissa exponent, w = mantissa ++ exponent ∧
      IsMantissa mantissa ∧ IsExponent exponent := by
  constructor
  · intro h
    obtain ⟨d, hd⟩ := Option.isSome_iff_exists.1 h
    exact exists_parts_of_read? hd
  · rintro ⟨mantissa, exponent, rfl, hmantissa, hexponent⟩
    obtain ⟨e, he⟩ := Option.isSome_iff_exists.1 (readExponent_isSome_iff.2 hexponent)
    cases hmantissa with
    | whole hne hdigits =>
      rw [read?_whole hne hdigits he]
      rfl
    | point hwhole hfraction hne =>
      rw [List.append_assoc, List.cons_append, read?_point hwhole hfraction hne he]
      rfl

end Decimal

/-! ### Signed numerals -/

theorem IsMantissa.head {mantissa : List Char} (h : IsMantissa mantissa) (rest : List Char) :
    ∀ c ∈ (mantissa ++ rest).head?, c.isDigit = true ∨ c = '.' := by
  intro c hc
  cases h with
  | whole hne hdigits =>
    obtain ⟨first, more, rfl⟩ := List.exists_cons_of_ne_nil hne
    obtain rfl := Option.some.inj hc
    exact .inl (hdigits first (List.mem_cons_self ..))
  | @point whole fraction hwhole =>
    cases whole with
    | nil => exact .inr (Option.some.inj hc).symm
    | cons first more =>
      obtain rfl := Option.some.inj hc
      exact .inl (hwhole first (List.mem_cons_self ..))

theorem IsMantissa.not_sign {mantissa : List Char} (h : IsMantissa mantissa) (rest : List Char) :
    ∀ c ∈ (mantissa ++ rest).head?, c ≠ '+' ∧ c ≠ '-' := by
  intro c hc
  rcases h.head rest c hc with hdigit | rfl
  · constructor <;> rintro rfl <;> cases hdigit
  · decide

theorem readReal?_eq (w : List Char) :
    readReal? w = (Decimal.read? (splitSign w).2).map fun d =>
      if (splitSign w).1 then -d.toFloat else d.toFloat :=
  rfl

theorem readReal?_isSome_iff {w : List Char} : (readReal? w).isSome = true ↔ IsNumeral w := by
  rw [readReal?_eq, Option.isSome_map, Decimal.read?_isSome_iff]
  constructor
  · rintro ⟨mantissa, exponent, hw, hmantissa, hexponent⟩
    obtain ⟨sign, hsign, hsplit⟩ := exists_sign w
    exact ⟨sign, mantissa, exponent, hw ▸ hsplit, hsign, hmantissa, hexponent⟩
  · rintro ⟨sign, mantissa, exponent, rfl, hsign, hmantissa, hexponent⟩
    rw [splitSign_append hsign (hmantissa.not_sign exponent)]
    exact ⟨mantissa, exponent, rfl, hmantissa, hexponent⟩

theorem readReal?_append {sign w : List Char} {d : Decimal} (hsign : IsSign sign)
    (h : Decimal.read? w = some d) :
    readReal? (sign ++ w) = some (if sign = ['-'] then -d.toFloat else d.toFloat) := by
  obtain ⟨mantissa, exponent, rfl, hmantissa, -⟩ := Decimal.exists_parts_of_read? h
  rw [readReal?_eq, splitSign_append hsign (hmantissa.not_sign exponent), h]
  simp

theorem isNaN_of_readReal? {w : List Char} {x : Float} (h : readReal? w = some x) :
    x.isNaN = false := by
  obtain ⟨d, -, rfl⟩ := Option.map_eq_some_iff.1 (readReal?_eq w ▸ h)
  cases (splitSign w).1
  · exact isNaN_toFloat d
  · exact (isNaN_neg _).trans (isNaN_toFloat d)

/-! ### Texts as numbers -/

theorem numberOfText_based {t : String} {mark : Char} {base : Nat} {digits : List Char}
    (hmark : (mark, base) ∈ baseMarks) (ht : Text.trim t.toList = '0' :: mark :: digits) :
    numberOfText t = ((readBased? base digits).map fun n : Nat => realOfInt n).getD nan := by
  simp only [baseMarks, List.mem_cons, List.not_mem_nil, or_false, Prod.mk.injEq] at hmark
  rcases hmark with ⟨rfl, rfl⟩ | ⟨rfl, rfl⟩ | ⟨rfl, rfl⟩ | ⟨rfl, rfl⟩ | ⟨rfl, rfl⟩ | ⟨rfl, rfl⟩
  all_goals
    simp only [numberOfText, ht]
    cases readBased? _ digits <;> rfl

theorem numberOfText_unbased {t : String} (hne : Text.trim t.toList ≠ [])
    (hbased : ∀ mark base digits, (mark, base) ∈ baseMarks →
      Text.trim t.toList ≠ '0' :: mark :: digits) :
    numberOfText t =
      if (splitSign (Text.trim t.toList)).2 = "Infinity".toList then
        if (splitSign (Text.trim t.toList)).1 then -infinity else infinity
      else (readReal? (Text.trim t.toList)).getD nan := by
  unfold numberOfText
  extract_lets based
  split
  · next h => exact absurd h hne
  · next h => exact absurd h (hbased 'x' 16 _ (by decide))
  · next h => exact absurd h (hbased 'X' 16 _ (by decide))
  · next h => exact absurd h (hbased 'o' 8 _ (by decide))
  · next h => exact absurd h (hbased 'O' 8 _ (by decide))
  · next h => exact absurd h (hbased 'b' 2 _ (by decide))
  · next h => exact absurd h (hbased 'B' 2 _ (by decide))
  · rfl

/-! ### Other bases -/

theorem base_le_of_mem {mark : Char} {base : Nat} (h : (mark, base) ∈ baseMarks) : base ≤ 16 := by
  have hall : ∀ p ∈ baseMarks, p.2 ≤ 16 := by decide
  exact hall _ h

theorem base_eq_of_mem {mark : Char} {base base' : Nat} (h : (mark, base) ∈ baseMarks)
    (h' : (mark, base') ∈ baseMarks) : base = base' := by
  have hall : ∀ p ∈ baseMarks, ∀ q ∈ baseMarks, p.1 = q.1 → p.2 = q.2 := by decide
  exact hall _ h _ h' rfl

theorem exists_numberIn_iff {base : Nat} {digits : List Char} :
    (∃ n, NumberIn base digits n) ↔ ∀ c ∈ digits, ∃ v, DigitIn base c v := by
  induction digits using List.reverseRecOn with
  | nil => simp [NumberIn]
  | append_singleton digits h ih =>
    rw [List.forall_mem_append, ← ih, List.forall_mem_singleton]
    constructor
    · rintro ⟨n, hn⟩
      obtain ⟨m, v, hm, hv, -⟩ := numberIn_concat_iff.1 hn
      exact ⟨⟨m, hm⟩, v, hv⟩
    · rintro ⟨⟨m, hm⟩, v, hv⟩
      exact ⟨_, numberIn_concat_iff.2 ⟨m, v, hm, hv, rfl⟩⟩

theorem NumberIn.unique {base : Nat} (hbase : base ≤ 16) {digits : List Char} {n n' : Nat}
    (h : NumberIn base digits n) (h' : NumberIn base digits n') : n = n' := by
  rw [← readDigits?_eq_some_iff_numberIn hbase] at h h'
  exact Option.some.inj (h.symm.trans h')

theorem not_numberIn_plus {base : Nat} (hbase : base ≤ 16) {digits : List Char} {n : Nat} :
    ¬ NumberIn base ('+' :: digits) n := by
  intro h
  obtain ⟨v, hv⟩ := exists_numberIn_iff.1 ⟨n, h⟩ '+' (List.mem_cons_self ..)
  cases ((digitIn_iff hbase).1 hv).1

/-- The number of digits that no sign stands before. -/
def readUnsigned? (base : Nat) (digits : List Char) : Option Nat :=
  if digits.isEmpty then none else (Text.readDigits? base digits).filter (· < UInt64.size)

theorem readUnsigned?_isSome_iff {base : Nat} (hbase : base ≤ 16) {digits : List Char} :
    (readUnsigned? base digits).isSome = true ↔
      digits ≠ [] ∧ ∃ n, NumberIn base digits n ∧ n < 2 ^ 64 := by
  simp only [← readDigits?_eq_some_iff_numberIn hbase]
  rw [readUnsigned?]
  split
  · next hempty => simp [List.isEmpty_iff.1 hempty]
  · next hempty =>
    rw [and_iff_right (by simpa using hempty)]
    cases Text.readDigits? base digits with
    | none => simp
    | some n =>
      have hsize : UInt64.size = 2 ^ 64 := rfl
      simp [hsize, Option.filter]

theorem readBased?_isSome_iff {base : Nat} (hbase : base ≤ 16) {w : List Char} :
    (readBased? base w).isSome = true ↔
      (w ≠ [] ∧ ∃ n, NumberIn base w n ∧ n < 2 ^ 64) ∨
        ∃ digits n, w = '+' :: digits ∧ digits ≠ [] ∧ NumberIn base digits n ∧ n < 2 ^ 64 := by
  by_cases hplus : ∃ digits, w = '+' :: digits
  · obtain ⟨digits, rfl⟩ := hplus
    have hread : readBased? base ('+' :: digits) = readUnsigned? base digits := rfl
    rw [hread, readUnsigned?_isSome_iff hbase, or_iff_right]
    · constructor
      · rintro ⟨hne, n, hn, hlt⟩
        exact ⟨digits, n, rfl, hne, hn, hlt⟩
      · rintro ⟨_, n, ⟨⟩, hne, hn, hlt⟩
        exact ⟨hne, n, hn, hlt⟩
    · -- a plus sign is no digit
      rintro ⟨-, n, hn, -⟩
      exact not_numberIn_plus hbase hn
  · have hread : readBased? base w = readUnsigned? base w := by
      unfold readBased?
      split
      · next digits => exact absurd ⟨digits, rfl⟩ hplus
      · rfl
    rw [hread, readUnsigned?_isSome_iff hbase, or_iff_left]
    rintro ⟨digits, -, hw, -⟩
    exact hplus ⟨digits, hw⟩

/-! ### The texts that count as numbers -/

theorem isNaN_getD_iff {x? : Option Float} (h : ∀ x ∈ x?, x.isNaN = false) :
    (x?.getD nan).isNaN = false ↔ x?.isSome = true := by
  cases x? with
  | none => decide
  | some x => exact iff_of_true (h x rfl) rfl

theorem numberOfText_based_isNaN {t : String} {mark : Char} {base : Nat} {digits : List Char}
    (hmark : (mark, base) ∈ baseMarks) (ht : Text.trim t.toList = '0' :: mark :: digits) :
    (numberOfText t).isNaN = false ↔ (readBased? base digits).isSome = true := by
  rw [numberOfText_based hmark ht, isNaN_getD_iff, Option.isSome_map]
  intro x hx
  obtain ⟨n, -, rfl⟩ := Option.map_eq_some_iff.1 hx
  exact isNaN_realOfInt n

theorem numberOfText_unbased_isNaN {t : String} (hne : Text.trim t.toList ≠ [])
    (hbased : ∀ mark base digits, (mark, base) ∈ baseMarks →
      Text.trim t.toList ≠ '0' :: mark :: digits) :
    (numberOfText t).isNaN = false ↔
      (∃ sign, IsSign sign ∧ Text.trim t.toList = sign ++ "Infinity".toList) ∨
        IsNumeral (Text.trim t.toList) := by
  rw [numberOfText_unbased hne hbased]
  generalize Text.trim t.toList = w
  obtain ⟨sign, hsign, hw⟩ := exists_sign w
  split
  · next hinfinity =>
    refine iff_of_true ?_ (.inl ⟨sign, hsign, hinfinity ▸ hw⟩)
    cases (splitSign w).1
    · decide
    · exact (isNaN_neg _).trans (by decide)
  · next hother =>
    rw [isNaN_getD_iff fun x hx => isNaN_of_readReal? hx, readReal?_isSome_iff, or_iff_right]
    rintro ⟨sign, hsign, rfl⟩
    have hletter : ∀ c ∈ "Infinity".toList.head?, c ≠ '+' ∧ c ≠ '-' := by
      rintro c ⟨⟩
      decide
    rw [splitSign_append hsign hletter] at hother
    exact hother rfl

/-- A numeral has no letters but that of its exponent. -/
theorem IsNumeral.chars {w : List Char} (h : IsNumeral w) :
    ∀ c ∈ w, c.isDigit = true ∨ c ∈ ['+', '-', '.', 'e', 'E'] := by
  obtain ⟨sign, mantissa, exponent, rfl, hsign, hmantissa, hexponent⟩ := h
  have hsigns {s : List Char} (hs : IsSign s) : ∀ c ∈ s, c ∈ ['+', '-', '.', 'e', 'E'] := by
    rcases hs with rfl | rfl | rfl <;> simp
  intro c hc
  simp only [List.mem_append] at hc
  rcases hc with hc | hc | hc
  · exact .inr (hsigns hsign c hc)
  · cases hmantissa with
    | whole _ hdigits => exact .inl (hdigits c hc)
    | point hwhole hfraction =>
      rcases List.mem_append.1 hc with hc | hc
      · exact .inl (hwhole c hc)
      · rcases List.mem_cons.1 hc with rfl | hc
        · exact .inr (by decide)
        · exact .inl (hfraction c hc)
  · cases hexponent with
    | absent => cases hc
    | present hmark hsign _ hdigits =>
      rcases List.mem_cons.1 hc with rfl | hc
      · rcases hmark with rfl | rfl <;> exact .inr (by decide)
      · rcases List.mem_append.1 hc with hc | hc
        · exact .inr (hsigns hsign c hc)
        · exact .inl (hdigits c hc)

theorem not_isNumeral_based {mark : Char} {base : Nat} {digits : List Char}
    (hmark : (mark, base) ∈ baseMarks) : ¬ IsNumeral ('0' :: mark :: digits) := by
  intro h
  have hall : ∀ p ∈ baseMarks, ¬ (p.1.isDigit = true ∨ p.1 ∈ ['+', '-', '.', 'e', 'E']) := by
    decide
  exact hall _ hmark (h.chars mark (by simp))

theorem not_infinity_based {sign : List Char} (hsign : IsSign sign) {mark : Char}
    {digits : List Char} : '0' :: mark :: digits ≠ sign ++ "Infinity".toList := by
  rcases hsign with rfl | rfl | rfl <;> intro h <;> cases h

theorem numericText_based_iff {mark : Char} {base : Nat} {digits : List Char}
    (hmark : (mark, base) ∈ baseMarks) :
    NumericText ('0' :: mark :: digits) ↔ digits ≠ [] ∧ ∃ n, NumberIn base digits n := by
  rw [exists_numberIn_iff]
  constructor
  · intro h
    generalize hw : '0' :: mark :: digits = w at h
    cases h with
    | empty => cases hw
    | infinity hsign => exact absurd hw (not_infinity_based hsign)
    | numeral hnumeral =>
      subst hw
      exact absurd hnumeral (not_isNumeral_based hmark)
    | based hmark' hne hdigits =>
      cases hw
      obtain rfl := base_eq_of_mem hmark hmark'
      exact ⟨hne, hdigits⟩
  · rintro ⟨hne, hdigits⟩
    exact .based hmark hne hdigits

theorem numericText_unbased_iff {w : List Char} (hne : w ≠ [])
    (hbased : ∀ mark base digits, (mark, base) ∈ baseMarks → w ≠ '0' :: mark :: digits) :
    NumericText w ↔ (∃ sign, IsSign sign ∧ w = sign ++ "Infinity".toList) ∨ IsNumeral w := by
  constructor
  · intro h
    cases h with
    | empty => exact absurd rfl hne
    | infinity hsign => exact .inl ⟨_, hsign, rfl⟩
    | numeral hnumeral => exact .inr hnumeral
    | based hmark => exact absurd rfl (hbased _ _ _ hmark)
  · rintro (⟨sign, hsign, rfl⟩ | hnumeral)
    · exact .infinity hsign
    · exact .numeral hnumeral

theorem based_word_iff {mark : Char} {base : Nat} {digits : List Char}
    (hmark : (mark, base) ∈ baseMarks) :
    (digits ≠ [] ∧ ∃ n, NumberIn base digits n ∧ n < 2 ^ 64) ↔
      NumericText ('0' :: mark :: digits) ∧ ¬ BeyondWords ('0' :: mark :: digits) := by
  rw [numericText_based_iff hmark]
  constructor
  · rintro ⟨hne, n, hn, hlt⟩
    refine ⟨⟨hne, n, hn⟩, ?_⟩
    rintro ⟨mark, base', digits, n', hmark', ⟨⟩, hn', hle⟩
    obtain rfl := base_eq_of_mem hmark hmark'
    obtain rfl := hn.unique (base_le_of_mem hmark) hn'
    omega
  · rintro ⟨⟨hne, n, hn⟩, hword⟩
    refine ⟨hne, n, hn, Nat.lt_of_not_le fun hle => ?_⟩
    exact hword ⟨mark, base, digits, n, hmark, rfl, hn, hle⟩

theorem based_plus_iff {mark : Char} {base : Nat} {digits : List Char}
    (hmark : (mark, base) ∈ baseMarks) :
    (∃ digits' n, digits = '+' :: digits' ∧ digits' ≠ [] ∧ NumberIn base digits' n ∧ n < 2 ^ 64) ↔
      PlusInside ('0' :: mark :: digits) := by
  constructor
  · rintro ⟨digits', n, rfl, hne, hn, hlt⟩
    exact ⟨mark, base, digits', n, hmark, rfl, hne, hn, hlt⟩
  · rintro ⟨mark, base', digits', n, hmark', ⟨⟩, hne, hn, hlt⟩
    obtain rfl := base_eq_of_mem hmark hmark'
    exact ⟨digits', n, rfl, hne, hn, hlt⟩

/-- A text counts as a number if it is written like one, blanks around it apart. In bases other than
ten there are two exceptions: a number beyond the words is not read, and a plus sign before the
digits is. -/
theorem text_number_iff (t : String) :
    (Value.text t).number.isNaN = false ↔
      NumericText (Text.trim t.toList) ∧ ¬ BeyondWords (Text.trim t.toList) ∨
        PlusInside (Text.trim t.toList) := by
  by_cases hbased : ∃ mark base digits, (mark, base) ∈ baseMarks ∧
      Text.trim t.toList = '0' :: mark :: digits
  · obtain ⟨mark, base, digits, hmark, ht⟩ := hbased
    rw [Value.number, numberOfText_based_isNaN hmark ht,
      readBased?_isSome_iff (base_le_of_mem hmark), ht, based_word_iff hmark, based_plus_iff hmark]
  · -- without a mark of base neither exception can occur
    have hbased : ∀ mark base digits, (mark, base) ∈ baseMarks →
        Text.trim t.toList ≠ '0' :: mark :: digits :=
      fun mark base digits hmark ht => hbased ⟨mark, base, digits, hmark, ht⟩
    have hword : ¬ BeyondWords (Text.trim t.toList) := by
      rintro ⟨mark, base, digits, n, hmark, ht, -⟩
      exact hbased mark base digits hmark ht
    have hplus : ¬ PlusInside (Text.trim t.toList) := by
      rintro ⟨mark, base, digits, n, hmark, ht, -⟩
      exact hbased mark base _ hmark ht
    rw [or_iff_left hplus, and_iff_left hword]
    by_cases hempty : Text.trim t.toList = []
    · refine iff_of_true ?_ (hempty ▸ .empty)
      rw [Value.number, numberOfText, hempty]
      decide
    · rw [Value.number, numberOfText_unbased_isNaN hempty hbased,
        numericText_unbased_iff hempty hbased]

/-- Both exceptions occur. -/
theorem based_numeral_exceptions :
    ((Value.text "0x+1F").number.isNaN = false ∧ ¬ NumericText (Text.trim "0x+1F".toList)) ∧
      ((Value.text "0x10000000000000000").number.isNaN = true ∧
        NumericText (Text.trim "0x10000000000000000".toList)) := by
  have hmark : ('x', 16) ∈ baseMarks := by decide
  have hplus : Text.trim "0x+1F".toList = '0' :: 'x' :: "+1F".toList := by decide
  have hwide : Text.trim "0x10000000000000000".toList =
      '0' :: 'x' :: "10000000000000000".toList := by
    decide
  rw [hplus, hwide, numericText_based_iff hmark, numericText_based_iff hmark]
  refine ⟨⟨?_, ?_⟩, ?_, by decide, 2 ^ 64, ?_⟩
  · exact (numberOfText_based_isNaN hmark hplus).2 (by decide)
  · rintro ⟨-, n, hn⟩
    exact not_numberIn_plus (by decide) hn
  · rw [← Bool.not_eq_false, Value.number, numberOfText_based_isNaN hmark hwide]
    decide
  · rw [← readDigits?_eq_some_iff_numberIn (by decide)]
    decide

end TagScript
