import Mathlib.Algebra.Field.Rat
import Mathlib.Algebra.Ring.Int.Parity
import Mathlib.Data.Int.Cast.Lemmas
import Mathlib.Tactic.NormNum
import TagScript.Value.Operation

/-!
# Arithmetic on words

Sums, differences, products, quotients and powers of integers against the mathematical results.
`arithmetic_exact_or_real`: an operation gives an integer exactly if the result is a whole number
that a word holds, and then gives that number; every other result is a real, so none wraps around.

Powers keep to the same rule for exponents below `2 ^ 32`. From there on every power is a real,
which loses the powers of `-1`, `0` and `1`, the only ones that a word still holds
(`power_exact_or_real`).
-/

namespace TagScript

/-- The whole numbers that a word holds. -/
def InWord (n : ℤ) : Prop :=
  -2 ^ 63 ≤ n ∧ n ≤ 2 ^ 63 - 1

instance (n : ℤ) : Decidable (InWord n) :=
  inferInstanceAs (Decidable (_ ∧ _))

/-- The mathematical result of an operation on whole numbers. There is no quotient by zero. -/
def exactResult? (op : Operator) (a b : ℤ) : Option ℚ :=
  match op with
  | .plus => some (a + b)
  | .minus => some (a - b)
  | .star => some (a * b)
  | .slash => if b = 0 then none else some (a / b)
  | _ => none

/-! ### Words -/

theorem inWord_iff {n : ℤ} : InWord n ↔ ∃ r : Int64, r.toInt = n := by
  constructor
  · rintro ⟨hmin, hmax⟩
    exact ⟨Int64.ofInt n, Int64.toInt_ofInt_of_le hmin (by omega)⟩
  · rintro ⟨r, rfl⟩
    exact ⟨r.le_toInt, Int.le_sub_one_of_lt r.toInt_lt⟩

theorem wordOf?_eq_some_iff {n : ℤ} {r : Int64} : wordOf? n = some r ↔ n = r.toInt := by
  unfold wordOf?
  constructor
  · intro h
    split at h
    · next hn =>
      obtain rfl := Option.some.inj h
      exact (Int64.toInt_ofInt_of_le hn.1 (Int.lt_of_le_sub_one hn.2)).symm
    · cases h
  · rintro rfl
    rw [if_pos ⟨r.minValue_le_toInt, r.toInt_le⟩, Int64.ofInt_toInt]

theorem wordOf?_eq_none {n : ℤ} (h : ¬ InWord n) : wordOf? n = none :=
  if_neg h

/-! ### Sums, differences, products and quotients -/

/-- A quotient is a whole number exactly if the division leaves no remainder. -/
theorem div_eq_intCast_iff {a b n : ℤ} (hb : b ≠ 0) :
    (a / b : ℚ) = n ↔ a.tmod b = 0 ∧ a.tdiv b = n := by
  rw [div_eq_iff (Int.cast_ne_zero.2 hb)]
  norm_cast
  constructor
  · rintro rfl
    exact ⟨Int.mul_tmod_left n b, Int.mul_tdiv_cancel n hb⟩
  · rintro ⟨hmod, rfl⟩
    exact (Int.tdiv_mul_cancel_of_tmod_eq_zero hmod).symm

namespace Value

theorem exactArithmetic_eq_some_iff {op : Operator} {a b r : Int64} :
    exactArithmetic op a b = some r ↔ exactResult? op a.toInt b.toInt = some (r.toInt : ℚ) := by
  cases op with
  | plus | minus | star =>
    rw [exactArithmetic, exactResult?, wordOf?_eq_some_iff, Option.some.injEq]
    norm_cast
  | slash =>
    have hzero : b = 0 ↔ b.toInt = 0 := by rw [← Int64.toInt_inj, Int64.toInt_zero]
    rw [exactArithmetic, exactResult?]
    by_cases hb : b.toInt = 0
    · simp [hzero.2 hb]
    rw [if_neg hb, Option.some.injEq, div_eq_intCast_iff hb]
    by_cases hmod : a.toInt.tmod b.toInt = 0
    · rw [if_pos ⟨mt hzero.1 hb, hmod⟩, wordOf?_eq_some_iff, and_iff_right hmod]
    · simp [hmod]
  | _ => simp [exactArithmetic, exactResult?]

theorem arithmetic_integer (op : Operator) (a b : Int64) :
    arithmetic op (integer a) (integer b) =
      match exactArithmetic op a b with
      | some r => integer r
      | none => real (realArithmetic op (realOfInt a.toInt) (realOfInt b.toInt)) :=
  if_neg (by simp [isText])

/-- Sum, difference, product and quotient of two integers never fail. They are an integer exactly if
the mathematical result is a whole number that a word holds, and are that number then; otherwise
they are what the operation gives for the nearest reals. -/
theorem arithmetic_exact_or_real {op : Operator}
    (hop : op = .plus ∨ op = .minus ∨ op = .star ∨ op = .slash) (a b : Int64) :
    binary op (integer a) (integer b) = some (arithmetic op (integer a) (integer b)) ∧
      (∀ n : ℤ, (∃ r : Int64, arithmetic op (integer a) (integer b) = integer r ∧ r.toInt = n) ↔
        exactResult? op a.toInt b.toInt = some (n : ℚ) ∧ InWord n) ∧
      ((∀ n : ℤ, exactResult? op a.toInt b.toInt = some (n : ℚ) → ¬ InWord n) →
        arithmetic op (integer a) (integer b) =
          real (realArithmetic op (realOfInt a.toInt) (realOfInt b.toInt))) := by
  refine ⟨by rcases hop with rfl | rfl | rfl | rfl <;> rfl, fun n => ?_, fun hnone => ?_⟩
  · rw [arithmetic_integer]
    constructor
    · rintro ⟨r, hr, rfl⟩
      refine ⟨?_, inWord_iff.2 ⟨r, rfl⟩⟩
      rw [← exactArithmetic_eq_some_iff]
      split at hr
      · next hexact => rw [hexact, Value.integer.inj hr]
      · cases hr
    · rintro ⟨hexact, hn⟩
      obtain ⟨r, rfl⟩ := inWord_iff.1 hn
      rw [exactArithmetic_eq_some_iff.2 hexact]
      exact ⟨r, rfl, rfl⟩
  · rw [arithmetic_integer]
    split
    · next r hexact =>
      exact absurd (inWord_iff.2 ⟨r, rfl⟩) (hnone _ (exactArithmetic_eq_some_iff.1 hexact))
    · rfl

/-- The smallest integer divided by `-1` is a real, and divided by `2` an integer. -/
theorem arithmetic_exact_or_real_smallest :
    arithmetic .slash (integer Int64.minValue) (integer (-1)) =
        real (realArithmetic .slash (realOfInt (-2 ^ 63)) (realOfInt (-1))) ∧
      ∃ r : Int64, arithmetic .slash (integer Int64.minValue) (integer 2) = integer r ∧
        r.toInt = -2 ^ 62 := by
  have hslash : Operator.slash = .plus ∨ Operator.slash = .minus ∨ Operator.slash = .star ∨
      Operator.slash = .slash := by decide
  have hmin : Int64.minValue.toInt = -2 ^ 63 := rfl
  obtain ⟨-, -, hreal⟩ := arithmetic_exact_or_real hslash Int64.minValue (-1)
  obtain ⟨-, hword, -⟩ := arithmetic_exact_or_real hslash Int64.minValue 2
  refine ⟨hreal fun n hn hin => ?_, (hword _).2 ⟨?_, by decide⟩⟩
  · have hone : (-1 : Int64).toInt = -1 := rfl
    rw [hmin, hone, exactResult?, if_neg (by decide), Option.some.injEq,
      div_eq_intCast_iff (by decide)] at hn
    rw [← hn.2] at hin
    exact absurd hin (by decide)
  · have htwo : (2 : Int64).toInt = 2 := rfl
    rw [hmin, htwo, exactResult?, if_neg (by decide)]
    norm_num

end Value

/-! ### Powers -/

theorem pow_of_natAbs_le_one {b : ℤ} (hb : b.natAbs ≤ 1) (e : ℕ) :
    (if e = 0 then 1 else if e % 2 = 0 then b * b else b) = b ^ e := by
  obtain rfl | rfl | rfl : b = -1 ∨ b = 0 ∨ b = 1 := by omega
  · split
    · next h => rw [h, pow_zero]
    · split
      · next h => rw [(Nat.even_iff.2 h).neg_one_pow, neg_mul_neg, one_mul]
      · next h => rw [(Nat.odd_iff.2 (Nat.mod_two_ne_zero.1 h)).neg_one_pow]
  · split
    · next h => rw [h, pow_zero]
    · next h => rw [zero_pow h, mul_zero, ite_self]
  · rw [one_pow, mul_one, ite_self, ite_self]

/-- All but three bases outgrow every word by their 64th power. -/
theorem not_inWord_pow {b : ℤ} (hb : 1 < b.natAbs) {e : ℕ} (he : 64 ≤ e) : ¬ InWord (b ^ e) := by
  have hlarge : 2 ^ 64 ≤ (b ^ e).natAbs :=
    calc 2 ^ 64 ≤ 2 ^ e := Nat.pow_le_pow_right (by decide) he
      _ ≤ b.natAbs ^ e := Nat.pow_le_pow_left hb e
      _ = (b ^ e).natAbs := (Int.natAbs_pow b e).symm
  rintro ⟨hmin, hmax⟩
  omega

namespace Value

theorem exactPower_eq {b e : Int64} (he : 0 ≤ e.toInt) :
    exactPower b e = if e.toInt < 2 ^ 32 then wordOf? (b.toInt ^ e.toInt.toNat) else none := by
  have hsize : UInt32.size = 2 ^ 32 := rfl
  have hpow (b : ℤ) (e : ℕ) : b.pow e = b ^ e := rfl
  unfold exactPower
  extract_lets base exponent
  by_cases hlarge : e.toInt < 2 ^ 32
  · rw [if_neg (by omega), if_pos hlarge]
    split
    · next hb => rw [pow_of_natAbs_le_one hb]
    · next hb =>
      split
      · next h64 => rw [wordOf?_eq_none (not_inWord_pow (by omega) h64)]
      · rw [hpow]
  · rw [if_pos (by omega), if_neg hlarge]

theorem power_integer (b e : Int64) :
    power (integer b) (integer e) =
      match exactPower b e with
      | some r => integer r
      | none => real (realPower (realOfInt b.toInt) (realOfInt e.toInt)) :=
  rfl

/-- A power with an exponent that is not negative is exact if a word holds it, and else a real, but
powers of `-1`, `0` and `1` are real too from the exponent `2 ^ 32` on. -/
theorem power_exact_or_real {b e : Int64} (he : 0 ≤ e.toInt) :
    (InWord (b.toInt ^ e.toInt.toNat) → (b.toInt.natAbs ≤ 1 → e.toInt < 2 ^ 32) →
      ∃ r : Int64, power (integer b) (integer e) = integer r ∧
        r.toInt = b.toInt ^ e.toInt.toNat) ∧
      (¬ InWord (b.toInt ^ e.toInt.toNat) ∨ b.toInt.natAbs ≤ 1 ∧ 2 ^ 32 ≤ e.toInt →
        power (integer b) (integer e) =
          real (realPower (realOfInt b.toInt) (realOfInt e.toInt))) := by
  rw [power_integer, exactPower_eq he]
  constructor
  · intro hword hsmall
    have hlt : e.toInt < 2 ^ 32 := by
      -- the base is none of the three, so its power is beyond the words
      by_contra hlarge
      refine not_inWord_pow ?_ ?_ hword <;> omega
    obtain ⟨r, hr⟩ := inWord_iff.1 hword
    rw [if_pos hlt, wordOf?_eq_some_iff.2 hr.symm]
    exact ⟨r, rfl, hr⟩
  · intro hreal
    have hnone : (if e.toInt < 2 ^ 32 then wordOf? (b.toInt ^ e.toInt.toNat) else none) = none := by
      rcases hreal with hword | ⟨-, hlarge⟩
      · rw [wordOf?_eq_none hword, ite_self]
      · exact if_neg (by omega)
    rw [hnone]

/-- The 63rd power of `-2` is the smallest integer, and that of `2` is beyond the largest. -/
theorem power_exact_or_real_smallest :
    0 ≤ (63 : Int64).toInt ∧
      (∃ r : Int64, power (integer (-2)) (integer 63) = integer r ∧ r.toInt = -2 ^ 63) ∧
      power (integer 2) (integer 63) = real (realPower (realOfInt 2) (realOfInt 63)) := by
  have he : 0 ≤ (63 : Int64).toInt := by decide
  obtain ⟨hword, -⟩ := power_exact_or_real (b := -2) he
  obtain ⟨-, hreal⟩ := power_exact_or_real (b := 2) he
  exact ⟨he, hword (by decide) (by decide), hreal (.inl (by decide))⟩

/-- A power of `-1` with an odd exponent is `-1`, but comes out as a real if the exponent is
large. -/
theorem large_power_of_unit_not_exact :
    ¬ ∀ b e : Int64, 0 ≤ e.toInt → InWord (b.toInt ^ e.toInt.toNat) →
      ∃ r : Int64, power (integer b) (integer e) = integer r ∧
        r.toInt = b.toInt ^ e.toInt.toNat := by
  intro h
  have he : 0 ≤ (9007199254740993 : Int64).toInt := by decide
  have hpow : (-1 : Int64).toInt ^ (9007199254740993 : Int64).toInt.toNat = -1 :=
    Odd.neg_one_pow (by decide)
  obtain ⟨r, hr, -⟩ := h (-1) 9007199254740993 he (by rw [hpow]; decide)
  rw [power_integer, exactPower_eq he, if_neg (by decide)] at hr
  cases hr

end Value

end TagScript
