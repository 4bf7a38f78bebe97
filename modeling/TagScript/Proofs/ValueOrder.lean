import TagScript.Proofs.RealOrder

/-!
# Equality and order of values

`looseEq` and `relate` go through the kinds of values apart from each other. `looseEq_iff` says that
they agree unless just one value is null, and `relate_swap` that the order of the operands is all
that turning them around changes. From these `comparison_coherent`: equality and the four orders
fit together for any two values.

Integers are compared exactly with each other and by the nearest real with reals, so transitivity is
a question of three values. `order_of_numbers` says where it holds: everywhere but for two integers
with the same nearest real.
-/

namespace TagScript

namespace Value

/-- Two values that can be put in order: two texts, or two that count as numbers. -/
def Comparable (a b : Value) : Prop :=
  a.isText = true ∧ b.isText = true ∨ a.number.isNaN = false ∧ b.number.isNaN = false

instance (a b : Value) : Decidable (Comparable a b) :=
  inferInstanceAs (Decidable (_ ∨ _))

/-! ### Reals -/

theorem relateReals_swap (x y : Float) : relateReals y x = (relateReals x y).map Ordering.swap := by
  by_cases hnan : x.isNaN = true ∨ y.isNaN = true
  · rw [relateReals_of_isNaN hnan, relateReals_of_isNaN hnan.symm]
    rfl
  · simp only [not_or, Bool.not_eq_true] at hnan
    rw [relateReals_eq hnan.1 hnan.2, relateReals_eq hnan.2 hnan.1, Option.map_some,
      Int.compare_swap]

theorem relateReals_eq_none_iff {x y : Float} :
    relateReals x y = none ↔ x.isNaN = true ∨ y.isNaN = true := by
  refine ⟨fun h => ?_, relateReals_of_isNaN⟩
  by_contra hnan
  simp only [not_or, Bool.not_eq_true] at hnan
  rw [relateReals_eq hnan.1 hnan.2] at h
  cases h

theorem beq_iff_relateReals {x y : Float} : (x == y) = true ↔ relateReals x y = some .eq := by
  rw [real_beq_iff]
  by_cases hnan : x.isNaN = true ∨ y.isNaN = true
  · rw [relateReals_of_isNaN hnan, compare_of_isNaN hnan]
  · simp only [not_or, Bool.not_eq_true] at hnan
    rw [relateReals_eq hnan.1 hnan.2,
      compare_eq_some (proper_unpack x.toModel) (proper_unpack y.toModel) hnan.1 hnan.2]

/-! ### Values -/

theorem relate_swap (a b : Value) : b.relate a = (a.relate b).map Ordering.swap := by
  fun_cases relate a b with
  | case1 s t => exact congrArg some Std.OrientedOrd.eq_swap
  | case2 m n => exact congrArg some Std.OrientedOrd.eq_swap
  | case3 a b htexts hwords =>
    rw [← relateReals_swap]
    fun_cases relate b a with
    | case1 s t => exact (htexts t s rfl rfl).elim
    | case2 m n => exact (hwords n m rfl rfl).elim
    | case3 => rfl

/-- Values that are neither both null nor null and something else are equal if they relate so. -/
theorem looseEq_iff {a b : Value} (hnull : a = null ↔ b = null) :
    a.looseEq b = true ↔ a.relate b = some .eq := by
  fun_cases looseEq a b with
  | case1 => decide
  | case2 b h => exact (h (hnull.1 rfl)).elim
  | case3 a h => exact (h (hnull.2 rfl)).elim
  | case4 s t => rw [relate, Option.some.injEq, Std.compare_eq_iff_eq, beq_iff_eq]
  | case5 p q => cases p <;> cases q <;> decide
  | case6 m n =>
    rw [relate, Option.some.injEq, Std.compare_eq_iff_eq, beq_iff_eq, Int64.toInt_inj]
  | case7 a b _ _ _ htexts _ hwords =>
    rw [beq_iff_relateReals]
    fun_cases relate a b with
    | case1 s t => exact (htexts s t rfl rfl).elim
    | case2 m n => exact (hwords m n rfl rfl).elim
    | case3 => rfl

theorem looseEq_comm (a b : Value) : a.looseEq b = b.looseEq a := by
  by_cases hnull : a = null ↔ b = null
  · rw [Bool.eq_iff_iff, looseEq_iff hnull, looseEq_iff hnull.symm, relate_swap a b]
    cases a.relate b with
    | none => rfl
    | some order => cases order <;> decide
  · cases a with
    | null => cases b <;> rfl
    | _ =>
      cases b with
      | null => rfl
      | _ => exact (hnull (by simp)).elim

theorem exists_of_isText {v : Value} (h : v.isText = true) : ∃ content, v = text content := by
  cases v with
  | text content => exact ⟨content, rfl⟩
  | _ => cases h

theorem relate_eq_none_iff {a b : Value} : a.relate b = none ↔ ¬ Comparable a b := by
  fun_cases relate a b with
  | case1 s t => exact iff_of_false (Option.some_ne_none _) (not_not.2 (.inl ⟨rfl, rfl⟩))
  | case2 m n =>
    have hnumbers : Comparable (integer m) (integer n) :=
      .inr ⟨isNaN_realOfInt m.toInt, isNaN_realOfInt n.toInt⟩
    exact iff_of_false (Option.some_ne_none _) (not_not.2 hnumbers)
  | case3 a b htexts _ =>
    have htext : ¬ (a.isText = true ∧ b.isText = true) := by
      rintro ⟨ha, hb⟩
      obtain ⟨s, rfl⟩ := exists_of_isText ha
      obtain ⟨t, rfl⟩ := exists_of_isText hb
      exact htexts s t rfl rfl
    rw [relateReals_eq_none_iff, Comparable, or_iff_right htext]
    cases a.number.isNaN <;> cases b.number.isNaN <;> decide

/-! ### Operators -/

/-- The orders of two values in which a comparison of them holds. -/
def holdsIn : Operator → Ordering → Bool
  | .equal, o => o == .eq
  | .less, o => o == .lt
  | .greater, o => o == .gt
  | .lessEqual, o => o != .gt
  | .greaterEqual, o => o != .lt
  | _, _ => false

theorem comparison_eq_any {a b : Value} (hnull : a = null ↔ b = null) {op : Operator}
    (hop : op ≠ .notEqual) : comparison op a b = (a.relate b).any (holdsIn op) := by
  cases op with
  | notEqual => exact absurd rfl hop
  | equal =>
    rw [comparison, Bool.eq_iff_iff, looseEq_iff hnull]
    cases a.relate b with
    | none => decide
    | some order => cases order <;> decide
  | less | greater | lessEqual | greaterEqual => rfl
  | _ => cases a.relate b <;> rfl

theorem comparison_turned (a b : Value) :
    comparison .less a b = comparison .greater b a ∧
      comparison .lessEqual a b = comparison .greaterEqual b a := by
  simp only [comparison, relate_swap a b]
  cases a.relate b with
  | none => exact ⟨rfl, rfl⟩
  | some order => cases order <;> exact ⟨rfl, rfl⟩

theorem exists_unique_holdsIn (o : Ordering) :
    ∃! op, op ∈ [.less, .equal, .greater] ∧ holdsIn op o = true := by
  simp only [List.mem_cons, List.not_mem_nil, or_false]
  cases o with
  | lt => exact ⟨.less, by decide, by rintro op ⟨rfl | rfl | rfl, h⟩ <;> first | rfl | cases h⟩
  | eq => exact ⟨.equal, by decide, by rintro op ⟨rfl | rfl | rfl, h⟩ <;> first | rfl | cases h⟩
  | gt => exact ⟨.greater, by decide, by rintro op ⟨rfl | rfl | rfl, h⟩ <;> first | rfl | cases h⟩

/-- Equality is symmetric, its negation is `!=`, and an order turned around is the opposite order.
Unless just one of them is null, two comparable values are less, equal or greater, one of the three
only, and the other two orders are made up of these; of two that are not comparable nothing
holds. -/
theorem comparison_coherent (a b : Value) :
    (comparison .equal a b = comparison .equal b a ∧
      comparison .notEqual a b = !comparison .equal a b ∧
      comparison .less a b = comparison .greater b a ∧
      comparison .lessEqual a b = comparison .greaterEqual b a) ∧
    ((a = null ↔ b = null) →
      (Comparable a b →
        (∃! op, op ∈ [.less, .equal, .greater] ∧ comparison op a b = true) ∧
        (comparison .lessEqual a b = true ↔
          comparison .less a b = true ∨ comparison .equal a b = true) ∧
        (comparison .greaterEqual a b = true ↔
          comparison .greater a b = true ∨ comparison .equal a b = true)) ∧
      (¬ Comparable a b → ∀ op ∈ [.equal, .less, .greater, .lessEqual, .greaterEqual],
        comparison op a b = false)) := by
  refine ⟨⟨looseEq_comm a b, rfl, comparison_turned a b⟩, fun hnull => ⟨fun hcomparable => ?_, ?_⟩⟩
  · obtain ⟨order, horder⟩ := Option.ne_none_iff_exists'.1
      fun hnone => relate_eq_none_iff.1 hnone hcomparable
    have hcomparison {op : Operator} (hop : op ≠ .notEqual) :
        comparison op a b = holdsIn op order := by
      rw [comparison_eq_any hnull hop, horder, Option.any_some]
    refine ⟨?_, ?_, ?_⟩
    · refine (existsUnique_congr fun op => and_congr_right fun hop => ?_).2
        (exists_unique_holdsIn order)
      rw [hcomparison (by rintro rfl; simp at hop)]
    · rw [hcomparison (by decide), hcomparison (by decide), hcomparison (by decide)]
      cases order <;> decide
    · rw [hcomparison (by decide), hcomparison (by decide), hcomparison (by decide)]
      cases order <;> decide
  · intro hnone op hop
    rw [comparison_eq_any hnull (by rintro rfl; simp at hop), relate_eq_none_iff.2 hnone,
      Option.any_none]

/-- A truth value and a text that counts as a number are equal, and a real that is no number is not
even equal to itself. -/
theorem comparison_coherent_mixed :
    (∃! op, op ∈ [.less, .equal, .greater] ∧ comparison op (bool true) (text " 1e0 ") = true) ∧
      ∀ op ∈ [.equal, .less, .greater, .lessEqual, .greaterEqual],
        comparison op (real nan) (real nan) = false := by
  obtain ⟨-, hmixed⟩ := comparison_coherent (bool true) (text " 1e0 ")
  obtain ⟨-, hnan⟩ := comparison_coherent (real nan) (real nan)
  exact ⟨((hmixed (by simp)).1 (by decide +kernel)).1, (hnan Iff.rfl).2 (by decide)⟩

/-! ### Transitivity -/

/-- An integer, or a real that is a number. -/
def IsNumber : Value → Prop
  | integer _ => True
  | real x => x.isNaN = false
  | _ => False

instance : DecidablePred IsNumber
  | integer _ => isTrue trivial
  | real x => inferInstanceAs (Decidable (x.isNaN = false))
  | text _ | bool _ | null => isFalse id

/-- Two different integers with a real between them that both of them are rounded to. -/
def RoundedTogether (a b c : Value) : Prop :=
  ∃ m n x, a = integer m ∧ b = real x ∧ c = integer n ∧ m ≠ n ∧
    (realOfInt m.toInt == x) = true ∧ (x == realOfInt n.toInt) = true

/-- Where a value stands on the number line, counted as a number. -/
def place (v : Value) : ℤ :=
  position v.number.toModel.unpack

section

variable {a b c : Value}

theorem IsNumber.isNaN_number (h : a.IsNumber) : a.number.isNaN = false := by
  cases a with
  | integer n => exact isNaN_realOfInt n.toInt
  | real x => exact h
  | _ => exact h.elim

theorem IsNumber.ne_null (h : a.IsNumber) : a ≠ null := by
  rintro rfl
  exact h

theorem place_mono {m n : Int64} (h : m.toInt ≤ n.toInt) : (integer m).place ≤ (integer n).place :=
  position_realOfInt_mono (inWord_iff.2 ⟨m, rfl⟩) (inWord_iff.2 ⟨n, rfl⟩) h

theorem lessEqual_integers {m n : Int64} :
    comparison .lessEqual (integer m) (integer n) = true ↔ m.toInt ≤ n.toInt := by
  rw [← compare_le_iff_le]
  show (compare m.toInt n.toInt != .gt) = true ↔ _
  cases compare m.toInt n.toInt <;> decide

theorem less_integers {m n : Int64} :
    comparison .less (integer m) (integer n) = true ↔ m.toInt < n.toInt := by
  rw [← compare_lt_iff_lt]
  show (compare m.toInt n.toInt == .lt) = true ↔ _
  rw [beq_iff_eq]

/-- Numbers that are not both integers relate by their places. -/
theorem IsNumber.relate_eq (ha : a.IsNumber) (hb : b.IsNumber)
    (hwords : ∀ m n, a = integer m → b = integer n → False) :
    a.relate b = some (compare a.place b.place) := by
  fun_cases relate a b with
  | case1 => exact ha.elim
  | case2 m n => exact (hwords m n rfl rfl).elim
  | case3 => exact relateReals_eq ha.isNaN_number hb.isNaN_number

theorem IsNumber.lessEqual_iff (ha : a.IsNumber) (hb : b.IsNumber)
    (hwords : ∀ m n, a = integer m → b = integer n → False) :
    comparison .lessEqual a b = true ↔ a.place ≤ b.place := by
  rw [comparison, ha.relate_eq hb hwords, ← compare_le_iff_le, Option.any_some]
  cases compare a.place b.place <;> decide

theorem IsNumber.equal_iff (ha : a.IsNumber) (hb : b.IsNumber)
    (hwords : ∀ m n, a = integer m → b = integer n → False) :
    a.looseEq b = true ↔ a.place = b.place := by
  rw [looseEq_iff (iff_of_false ha.ne_null hb.ne_null), ha.relate_eq hb hwords,
    Option.some.injEq, compare_eq_iff_eq]

theorem IsNumber.place_le (ha : a.IsNumber) (hb : b.IsNumber)
    (h : comparison .lessEqual a b = true) : a.place ≤ b.place := by
  by_cases hwords : ∀ m n, a = integer m → b = integer n → False
  · exact (ha.lessEqual_iff hb hwords).1 h
  · push Not at hwords
    obtain ⟨m, n, rfl, rfl, -⟩ := hwords
    exact place_mono (lessEqual_integers.1 h)

theorem IsNumber.place_eq (ha : a.IsNumber) (hb : b.IsNumber) (h : a.looseEq b = true) :
    a.place = b.place := by
  by_cases hwords : ∀ m n, a = integer m → b = integer n → False
  · exact (ha.equal_iff hb hwords).1 h
  · push Not at hwords
    obtain ⟨m, n, rfl, rfl, -⟩ := hwords
    rw [eq_of_beq (a := m) (b := n) h]

theorem integer_equal_real {m : Int64} {x : Float} (hx : (real x).IsNumber) :
    (realOfInt m.toInt == x) = true ↔ (integer m).place = (real x).place :=
  IsNumber.equal_iff (a := integer m) trivial hx nofun

theorem real_equal_integer {n : Int64} {x : Float} (hx : (real x).IsNumber) :
    (x == realOfInt n.toInt) = true ↔ (real x).place = (integer n).place :=
  IsNumber.equal_iff (b := integer n) hx trivial nofun

/-- Integers up to `2 ^ 53` are reals, so no two of them are rounded together. -/
theorem RoundedTogether.large {m n : Int64} (hb : b.IsNumber)
    (h : RoundedTogether (integer m) b (integer n)) :
    2 ^ 53 < m.toInt.natAbs ∨ 2 ^ 53 < n.toInt.natAbs := by
  obtain ⟨_, _, x, ⟨⟩, rfl, ⟨⟩, hne, hmx, hxn⟩ := h
  have hplace := ((integer_equal_real hb).1 hmx).trans ((real_equal_integer hb).1 hxn)
  by_contra hsmall
  push Not at hsmall
  refine hne (Int64.toInt_inj.1 ?_)
  have hexact : m.toInt * 2 ^ 1074 = n.toInt * 2 ^ 1074 := by
    rw [← position_realOfInt_exact hsmall.1, ← position_realOfInt_exact hsmall.2]
    exact hplace
  exact mul_right_cancel₀ (by positivity) hexact

theorem IsNumber.lessEqual_trans_iff (ha : a.IsNumber) (hb : b.IsNumber) (hc : c.IsNumber)
    (hab : comparison .lessEqual a b = true) (hbc : comparison .lessEqual b c = true) :
    comparison .lessEqual a c = true ↔
      ¬ (RoundedTogether a b c ∧ comparison .less c a = true) := by
  by_cases hwords : ∀ m n, a = integer m → c = integer n → False
  · refine iff_of_true ((ha.lessEqual_iff hc hwords).2
      (le_trans (ha.place_le hb hab) (hb.place_le hc hbc))) ?_
    rintro ⟨⟨m, n, x, hm, -, hn, -⟩, -⟩
    exact hwords m n hm hn
  · push Not at hwords
    obtain ⟨m, n, rfl, rfl, -⟩ := hwords
    rw [lessEqual_integers, less_integers]
    cases b with
    | integer k =>
      refine iff_of_true (le_trans (lessEqual_integers.1 hab) (lessEqual_integers.1 hbc)) ?_
      rintro ⟨⟨_, _, _, -, ⟨⟩, -⟩, -⟩
    | real x =>
      refine ⟨fun hle hrounded => absurd hrounded.2 (not_lt.2 hle), fun hrounded => ?_⟩
      by_contra hgt
      -- the larger integer stands at or after the smaller one, so all three places are one
      have hmx := ha.place_le hb hab
      have hxn := hb.place_le hc hbc
      have hnm := place_mono (not_le.1 hgt).le
      refine hrounded ⟨⟨m, n, x, rfl, rfl, rfl, ?_, ?_, ?_⟩, not_le.1 hgt⟩
      · rintro rfl
        exact hgt (le_refl _)
      · exact (integer_equal_real hb).2 (by omega)
      · exact (real_equal_integer hb).2 (by omega)
    | _ => exact hb.elim

theorem IsNumber.looseEq_trans_iff (ha : a.IsNumber) (hb : b.IsNumber) (hc : c.IsNumber)
    (hab : a.looseEq b = true) (hbc : b.looseEq c = true) :
    a.looseEq c = true ↔ ¬ RoundedTogether a b c := by
  by_cases hwords : ∀ m n, a = integer m → c = integer n → False
  · refine iff_of_true ((ha.equal_iff hc hwords).2
      ((ha.place_eq hb hab).trans (hb.place_eq hc hbc))) ?_
    rintro ⟨m, n, x, hm, -, hn, -⟩
    exact hwords m n hm hn
  · push Not at hwords
    obtain ⟨m, n, rfl, rfl, -⟩ := hwords
    cases b with
    | integer k =>
      obtain rfl : m = k := eq_of_beq hab
      refine iff_of_true hbc ?_
      rintro ⟨_, _, _, -, ⟨⟩, -⟩
    | real x =>
      show (m == n) = true ↔ _
      rw [beq_iff_eq]
      constructor
      · rintro rfl ⟨_, _, _, ⟨⟩, -, ⟨⟩, hne, -⟩
        exact hne rfl
      · intro hrounded
        by_contra hne
        exact hrounded ⟨m, n, x, rfl, rfl, rfl, hne, hab, hbc⟩
    | _ => exact hb.elim

theorem IsNumber.looseEq_self (ha : a.IsNumber) : a.looseEq a = true := by
  cases a with
  | integer n => exact beq_self_eq_true n
  | real x => exact (ha.equal_iff ha nofun).2 rfl
  | _ => exact ha.elim

theorem IsNumber.comparable (ha : a.IsNumber) (hb : b.IsNumber) : Comparable a b :=
  .inr ⟨ha.isNaN_number, hb.isNaN_number⟩

theorem IsNumber.lessEqual_total (ha : a.IsNumber) (hb : b.IsNumber) :
    comparison .lessEqual a b = true ∨ comparison .lessEqual b a = true := by
  rw [(comparison_turned b a).2, comparison, comparison]
  obtain ⟨order, horder⟩ := Option.ne_none_iff_exists'.1
    fun hnone => relate_eq_none_iff.1 hnone (ha.comparable hb)
  rw [horder]
  cases order <;> decide

end

/-- Equality of numbers is reflexive and symmetric, and any two are in order. Order and equality are
transitive but for one case: two different integers that are rounded to the real between them are
not equal, and are in the order that they have as integers. One of them is then beyond `2 ^ 53`. -/
theorem order_of_numbers {a b c : Value} (ha : a.IsNumber) (hb : b.IsNumber) (hc : c.IsNumber) :
    (a.looseEq a = true ∧ a.looseEq b = b.looseEq a ∧
      (comparison .lessEqual a b = true ∨ comparison .lessEqual b a = true)) ∧
    (comparison .lessEqual a b = true → comparison .lessEqual b c = true →
      (comparison .lessEqual a c = true ↔
        ¬ (RoundedTogether a b c ∧ comparison .less c a = true))) ∧
    (a.looseEq b = true → b.looseEq c = true →
      (a.looseEq c = true ↔ ¬ RoundedTogether a b c)) ∧
    (∀ m n : Int64, RoundedTogether (integer m) b (integer n) →
      2 ^ 53 < m.toInt.natAbs ∨ 2 ^ 53 < n.toInt.natAbs) := by
  exact ⟨⟨ha.looseEq_self, looseEq_comm a b, ha.lessEqual_total hb⟩, ha.lessEqual_trans_iff hb hc,
    ha.looseEq_trans_iff hb hc, fun m n => RoundedTogether.large hb⟩

/-- The integer after `2 ^ 53` is rounded down to it, which leaves the two in order. -/
theorem order_of_numbers_rounded :
    (real 9007199254740992.0).IsNumber ∧
      comparison .lessEqual (integer 9007199254740992) (integer 9007199254740993) = true := by
  have hreal : (real 9007199254740992.0).IsNumber := by decide
  obtain ⟨-, htrans, -⟩ := order_of_numbers (a := integer 9007199254740992)
    (c := integer 9007199254740993) trivial hreal trivial
  refine ⟨hreal, (htrans (by decide +kernel) (by decide +kernel)).2 ?_⟩
  rintro ⟨-, hless⟩
  exact absurd hless (by decide)

/-- The integer after `2 ^ 53` is at most the real `2 ^ 53`, and that at most the integer. -/
theorem number_order_not_transitive :
    (¬ ∀ a b c : Value, a.IsNumber → b.IsNumber → c.IsNumber →
      comparison .lessEqual a b = true → comparison .lessEqual b c = true →
        comparison .lessEqual a c = true) ∧
    ¬ ∀ a b c : Value, a.IsNumber → b.IsNumber → c.IsNumber →
      a.looseEq b = true → b.looseEq c = true → a.looseEq c = true := by
  have hreal : (real 9007199254740992.0).IsNumber := by decide
  constructor
  · intro h
    have hle := h (integer 9007199254740993) (real 9007199254740992.0) (integer 9007199254740992)
      trivial hreal trivial (by decide +kernel) (by decide +kernel)
    exact absurd hle (by decide)
  · intro h
    have heq := h (integer 9007199254740993) (real 9007199254740992.0) (integer 9007199254740992)
      trivial hreal trivial (by decide +kernel) (by decide +kernel)
    exact absurd heq (by decide)

end Value

end TagScript
