import TagScript.Proofs.Shortest
import TagScript.Proofs.WordArithmetic

/-!
# The order of reals

Two reals that are numbers relate as their positions on the number line do (`relateReals_eq`), and a
real that is no number relates to nothing. Rounding a whole number to the nearest real keeps the
order (`position_realOfInt_mono`) and changes nothing up to `2 ^ 53`
(`position_realOfInt_exact`).
-/

namespace TagScript

open Float.Model Float.Model.UnpackedFloat

/-! ### Parts of a real -/

/-- What a real can be taken apart into. -/
def Proper : UnpackedFloat → Prop
  | .finite _ m e _ => Canonical m e ∧ e ≤ 971
  | _ => True

theorem proper_unpack (x : Float.Model) : Proper x.unpack := by
  cases h : x.unpack with
  | finite => exact canonical_of_unpack h
  | _ => trivial

theorem unpack_pack_proper {f : UnpackedFloat} (h : Proper f) :
    (Float.Model.pack f).unpack = f := by
  cases f with
  | notANumber => rfl
  | infinity sign => cases sign <;> rfl
  | zero sign => cases sign <;> rfl
  | finite sign m e hm => exact unpack_pack_canonical hm h.1 h.2 sign

theorem Proper.neg {f : UnpackedFloat} (h : Proper f) : Proper f.neg := by
  cases f <;> exact h

theorem Proper.abs {f : UnpackedFloat} (h : Proper f) : Proper f.abs := by
  cases f <;> exact h

theorem unpack_neg (x : Float) : (-x).toModel.unpack = x.toModel.unpack.neg :=
  unpack_pack_proper (proper_unpack x.toModel).neg

theorem unpack_abs (x : Float) : x.abs.toModel.unpack = x.toModel.unpack.abs :=
  unpack_pack_proper (proper_unpack x.toModel).abs

/-! ### Order -/

/-- The number `m * 2 ^ e` counted in the smallest real above zero. -/
def steps (m : ℕ) (e : ℤ) : ℕ :=
  m * 2 ^ (e + 1074).toNat

/-- Where a real stands on the number line. Infinity stands at the first number that is too large
for a finite real. -/
def position : UnpackedFloat → ℤ
  | .infinity sign => sign.apply (steps (2 ^ 53) 971)
  | .finite sign m e _ => sign.apply (steps m e)
  | _ => 0

theorem position_neg (f : UnpackedFloat) : position f.neg = -position f := by
  have happly (sign : Sign) (n : ℤ) : (-sign).apply n = -sign.apply n := by
    cases sign <;> simp [Sign.apply]
  cases f with
  | notANumber => rfl
  | zero => rfl
  | infinity sign => exact happly sign _
  | finite sign m e hm => exact happly sign _

section

variable {m m' : ℕ} {e e' : ℤ}

theorem steps_pos (hm : 0 < m) (e : ℤ) : 0 < steps m e :=
  Nat.mul_pos hm (Nat.two_pow_pos _)

theorem steps_lt_infinity (h : Canonical m e) (he : e ≤ 971) : steps m e < steps (2 ^ 53) 971 :=
  calc steps m e < 2 ^ 53 * 2 ^ (e + 1074).toNat :=
        Nat.mul_lt_mul_of_pos_right h.lt_two_pow (Nat.two_pow_pos _)
    _ ≤ steps (2 ^ 53) 971 :=
        Nat.mul_le_mul_left _ (Nat.pow_le_pow_right (by decide) (by omega))

theorem Canonical.steps_lt (h : Canonical m e) (h' : Canonical m' e') (hm : 0 < m') (hlt : e < e') :
    steps m e < steps m' e' := by
  have hupper := h.lt_two_pow
  rw [canonical_iff] at h h'
  have hlarge : 2 ^ 52 ≤ m' := by
    rw [← Nat.le_log2 (Nat.ne_of_gt hm)]
    omega
  calc steps m e < 2 ^ 53 * 2 ^ (e + 1074).toNat :=
        Nat.mul_lt_mul_of_pos_right hupper (Nat.two_pow_pos _)
    _ = 2 ^ 52 * 2 ^ ((e + 1074).toNat + 1) := by rw [Nat.pow_succ]; ring
    _ ≤ steps m' e' := Nat.mul_le_mul hlarge (Nat.pow_le_pow_right (by decide) (by omega))

/-- Exponents decide before mantissas do. -/
theorem Canonical.compare_eq (h : Canonical m e) (h' : Canonical m' e') (hm : 0 < m)
    (hm' : 0 < m') :
    (compare e e').then (compare m m') = compare (steps m e : ℤ) (steps m' e') := by
  rcases lt_trichotomy e e' with hlt | rfl | hlt
  · rw [compare_lt_iff_lt.2 hlt, compare_lt_iff_lt.2 (Int.ofNat_lt.2 (h.steps_lt h' hm' hlt))]
    rfl
  · rw [compare_eq_iff_eq.2 rfl, Ordering.eq_then]
    rcases lt_trichotomy m m' with hlt | rfl | hlt
    · rw [compare_lt_iff_lt.2 hlt, compare_lt_iff_lt.2]
      exact Int.ofNat_lt.2 (Nat.mul_lt_mul_of_pos_right hlt (Nat.two_pow_pos _))
    · rw [compare_eq_iff_eq.2 rfl, compare_eq_iff_eq.2 rfl]
    · rw [compare_gt_iff_gt.2 hlt, compare_gt_iff_gt.2]
      exact Int.ofNat_lt.2 (Nat.mul_lt_mul_of_pos_right hlt (Nat.two_pow_pos _))
  · rw [compare_gt_iff_gt.2 hlt, compare_gt_iff_gt.2 (Int.ofNat_lt.2 (h'.steps_lt h hm hlt))]
    rfl

end

theorem compare_neg_neg (a b : ℤ) : compare (-a) (-b) = (compare a b).swap := by
  rw [Int.compare_swap]
  rcases lt_trichotomy a b with h | rfl | h
  · rw [compare_gt_iff_gt.2 h, compare_gt_iff_gt.2 (neg_lt_neg h)]
  · rw [compare_eq_iff_eq.2 rfl, compare_eq_iff_eq.2 rfl]
  · rw [compare_lt_iff_lt.2 h, compare_lt_iff_lt.2 (neg_lt_neg h)]

/-- Only infinities stand at either end. -/
theorem position_bounds {f : UnpackedFloat} (hf : Proper f)
    (hfinite : ∀ sign, f = .infinity sign → False) :
    position (.infinity .negative) < position f ∧ position f < position (.infinity .positive) := by
  have hinf : 0 < steps (2 ^ 53) 971 := steps_pos (Nat.two_pow_pos 53) 971
  cases f with
  | infinity sign => exact (hfinite sign rfl).elim
  | finite sign m e hm =>
    have hlt := steps_lt_infinity hf.1 hf.2
    cases sign <;> simp only [position, Sign.apply] <;> omega
  | _ => simp only [position, Sign.apply]; omega

theorem position_finite_neg {m : ℕ} (hm : 0 < m) (e : ℤ) :
    position (.finite .negative m e hm) < 0 := by
  have hpos := steps_pos hm e
  simp only [position, Sign.apply]
  omega

theorem position_finite_pos {m : ℕ} (hm : 0 < m) (e : ℤ) :
    0 < position (.finite .positive m e hm) :=
  Int.natCast_pos.2 (steps_pos hm e)

/-- Numbers compare as their places do. -/
theorem compare_eq_some {f g : UnpackedFloat} (hf : Proper f) (hg : Proper g)
    (hfn : f.isNaN = false) (hgn : g.isNaN = false) :
    f.compare g = some (compare (position f) (position g)) := by
  have hlt {a b : ℤ} (h : a < b) : some .lt = some (compare a b) := by
    rw [compare_lt_iff_lt.2 h]
  have hgt {a b : ℤ} (h : b < a) : some .gt = some (compare a b) := by
    rw [compare_gt_iff_gt.2 h]
  fun_cases UnpackedFloat.compare f g with
  | case1 => cases hfn
  | case2 => cases hgn
  | case3 sign sign' =>
    have hinf : 0 < steps (2 ^ 53) 971 := steps_pos (Nat.two_pow_pos 53) 971
    cases sign <;> cases sign'
    · exact congrArg some (compare_eq_iff_eq.2 rfl).symm
    · exact hlt (by simp only [position, Sign.apply]; omega)
    · exact hgt (by simp only [position, Sign.apply]; omega)
    · exact congrArg some (compare_eq_iff_eq.2 rfl).symm
  | case4 g _ hfinite => exact hgt (position_bounds hg hfinite).2
  | case5 g _ hfinite => exact hlt (position_bounds hg hfinite).1
  | case6 f _ hfinite => exact hlt (position_bounds hf hfinite).2
  | case7 f _ hfinite => exact hgt (position_bounds hf hfinite).1
  | case8 m e hm => exact hgt (position_finite_pos hm e)
  | case9 m e hm => exact hlt (position_finite_neg hm e)
  | case10 _ m e hm => exact hlt (position_finite_pos hm e)
  | case11 _ m e hm => exact hgt (position_finite_neg hm e)
  | case12 => exact congrArg some (compare_eq_iff_eq.2 rfl).symm
  | case13 m e hm m' e' hm' =>
    rw [hf.1.compare_eq hg.1 hm hm', ← compare_neg_neg]
    rfl
  | case14 m e hm m' e' hm' =>
    exact hlt (lt_trans (position_finite_neg hm e) (position_finite_pos hm' e'))
  | case15 m e hm m' e' hm' =>
    exact hgt (lt_trans (position_finite_neg hm' e') (position_finite_pos hm e))
  | case16 m e hm m' e' hm' =>
    rw [hf.1.compare_eq hg.1 hm hm']
    rfl

theorem compare_of_isNaN {f g : UnpackedFloat} (h : f.isNaN = true ∨ g.isNaN = true) :
    f.compare g = none := by
  rcases h with h | h
  · rw [UnpackedFloat.isNaN_iff.1 h]
    rfl
  · rw [UnpackedFloat.isNaN_iff.1 h]
    cases f with
    | infinity sign => cases sign <;> rfl
    | finite sign => cases sign <;> rfl
    | _ => rfl

theorem real_lt_iff {x y : Float} :
    x < y ↔ x.toModel.unpack.compare y.toModel.unpack = some .lt := by
  show Float.lt x y = true ↔ _
  rw [Float.lt, decide_eq_true_iff]
  exact beq_iff_eq

theorem real_beq_iff {x y : Float} :
    (x == y) = true ↔ x.toModel.unpack.compare y.toModel.unpack = some .eq := by
  show (x.toModel.unpack.compare y.toModel.unpack == some .eq) = true ↔ _
  exact beq_iff_eq

namespace Value

theorem relateReals_of_isNaN {x y : Float} (h : x.isNaN = true ∨ y.isNaN = true) :
    relateReals x y = none := by
  have hxy : x.toModel.unpack.compare y.toModel.unpack = none := compare_of_isNaN h
  have hyx : y.toModel.unpack.compare x.toModel.unpack = none := compare_of_isNaN h.symm
  simp [relateReals, real_lt_iff, real_beq_iff, hxy, hyx]

/-- Numbers relate as they stand on the number line. -/
theorem relateReals_eq {x y : Float} (hx : x.isNaN = false) (hy : y.isNaN = false) :
    relateReals x y =
      some (compare (position x.toModel.unpack) (position y.toModel.unpack)) := by
  have hxy := compare_eq_some (proper_unpack x.toModel) (proper_unpack y.toModel) hx hy
  have hyx := compare_eq_some (proper_unpack y.toModel) (proper_unpack x.toModel) hy hx
  simp only [relateReals, real_lt_iff, real_beq_iff, hxy, hyx]
  rcases lt_trichotomy (position x.toModel.unpack) (position y.toModel.unpack) with h | h | h
  · simp [compare_lt_iff_lt.2 h]
  · simp [compare_eq_iff_eq.2 h]
  · simp [compare_gt_iff_gt.2 h, compare_lt_iff_lt.2 h]

end Value

/-! ### Nearest reals of whole numbers -/

/-- Something is lost in shifting exactly if there is a remainder. -/
theorem lost_shiftRight (M k : ℕ) :
    (((⟨M, false, false⟩ : ExtendedMantissa) >>> k).roundBit ||
      ((⟨M, false, false⟩ : ExtendedMantissa) >>> k).stickyBit) = decide (M % 2 ^ k ≠ 0) := by
  induction k with
  | zero =>
    rw [Nat.pow_zero, Nat.mod_one]
    rfl
  | succ k ih =>
    have hmod : M % 2 ^ (k + 1) = M % 2 ^ k + 2 ^ k * (M / 2 ^ k % 2) := Nat.mod_mul
    have hpos := Nat.two_pow_pos k
    rw [shiftRight_succ, ExtendedMantissa.shiftRightOne, ih, mantissa_shiftRight, hmod]
    rcases Nat.mod_two_eq_zero_or_one (M / 2 ^ k) with h | h <;> simp [h]

theorem shiftRight_parts (M k : ℕ) :
    (⟨M, false, false⟩ : ExtendedMantissa) >>> (k + 1) =
      ⟨M / 2 ^ k / 2, M / 2 ^ k % 2 != 0, decide (M % 2 ^ k ≠ 0)⟩ := by
  rw [shiftRight_succ, ExtendedMantissa.shiftRightOne, mantissa_shiftRight, lost_shiftRight]

/-- Twice the rounded number is the number with one bit more, or a neighbour of it. -/
theorem two_mul_roundedMantissa (M k : ℕ) :
    ∃ r, ((⟨M, false, false⟩ : ExtendedMantissa) >>> (k + 1)).roundedMantissa = r ∧
      (2 * r = M / 2 ^ k ∨ 2 * r = M / 2 ^ k + 1 ∨ 2 * r + 1 = M / 2 ^ k ∧ M % 2 ^ k = 0) := by
  refine ⟨_, rfl, ?_⟩
  rw [shiftRight_parts, ExtendedMantissa.roundedMantissa]
  rcases Nat.mod_two_eq_zero_or_one (M / 2 ^ k) with hbit | hbit <;>
    by_cases hrest : M % 2 ^ k = 0 <;>
      simp [hbit, hrest, ExtendedMantissa.accuracy, Accuracy.roundToNearestEven] <;> omega

/-- A rounded number is at most half a unit away. -/
theorem roundedMantissa_near (M k : ℕ) :
    2 * ((⟨M, false, false⟩ : ExtendedMantissa) >>> (k + 1)).roundedMantissa * 2 ^ k ≤ M + 2 ^ k ∧
      M ≤ 2 * ((⟨M, false, false⟩ : ExtendedMantissa) >>> (k + 1)).roundedMantissa * 2 ^ k +
        2 ^ k := by
  have hM : M / 2 ^ k * 2 ^ k + M % 2 ^ k = M := Nat.div_add_mod' M (2 ^ k)
  have hlt : M % 2 ^ k < 2 ^ k := Nat.mod_lt M (Nat.two_pow_pos k)
  obtain ⟨r, hr, hcases⟩ := two_mul_roundedMantissa M k
  rw [hr]
  rcases hcases with h | h | ⟨h, hrest⟩
  · rw [h]
    omega
  · rw [h, Nat.succ_mul]
    omega
  · rw [← h, Nat.succ_mul] at hM
    omega

theorem roundedMantissa_mono {M M' : ℕ} (h : M ≤ M') (k : ℕ) :
    ((⟨M, false, false⟩ : ExtendedMantissa) >>> (k + 1)).roundedMantissa ≤
      ((⟨M', false, false⟩ : ExtendedMantissa) >>> (k + 1)).roundedMantissa := by
  rcases Nat.eq_or_lt_of_le h with rfl | hlt
  · exact le_refl _
  obtain ⟨hupper, -⟩ := roundedMantissa_near M k
  obtain ⟨-, hlower⟩ := roundedMantissa_near M' k
  by_contra hgt
  -- the two would be a whole unit apart, and each is at most half a unit away from its number
  have hunit := Nat.mul_le_mul_right (2 ^ k) (Nat.mul_le_mul_left 2 (Nat.lt_of_not_le hgt))
  rw [Nat.mul_succ, Nat.add_mul] at hunit
  omega

section

variable {n n' : ℕ}

/-- The mantissa of a positive whole number, a carry included. -/
def mantissaOf (n : ℕ) : ℕ :=
  ((⟨n * 2 ^ 53, false, false⟩ : ExtendedMantissa) >>> (n.log2 + 1)).roundedMantissa

theorem log2_mantissa (hn : 0 < n) : (n * 2 ^ 53).log2 = 52 + (n.log2 + 1) := by
  rw [log2_mul_two_pow hn]
  omega

theorem mantissaOf_bounds (hn : 0 < n) : 2 ^ 52 ≤ mantissaOf n ∧ mantissaOf n ≤ 2 ^ 53 :=
  roundedMantissa_large (log2_mantissa hn) (by positivity)

/-- Rounding keeps the order of whole numbers. -/
theorem mantissaOf_mul_mono (hn : 0 < n) (h : n ≤ n') :
    mantissaOf n * 2 ^ n.log2 ≤ mantissaOf n' * 2 ^ n'.log2 := by
  have hlog : n.log2 ≤ n'.log2 := (Nat.le_log2 (by omega)).2
    (le_trans (Nat.log2_self_le (by omega)) h)
  rcases Nat.eq_or_lt_of_le hlog with heq | hlt
  · have hround : mantissaOf n ≤ mantissaOf n' := by
      rw [mantissaOf, mantissaOf, ← heq]
      exact roundedMantissa_mono (Nat.mul_le_mul_right _ h) _
    rw [← heq]
    exact Nat.mul_le_mul_right _ hround
  · calc mantissaOf n * 2 ^ n.log2 ≤ 2 ^ 53 * 2 ^ n.log2 :=
          Nat.mul_le_mul_right _ (mantissaOf_bounds hn).2
      _ = 2 ^ 52 * 2 ^ (n.log2 + 1) := by rw [Nat.pow_succ]; ring
      _ ≤ mantissaOf n' * 2 ^ n'.log2 :=
          Nat.mul_le_mul (mantissaOf_bounds (by omega)).1 (Nat.pow_le_pow_right (by decide) hlt)

/-- Up to `2 ^ 53` nothing is rounded. -/
theorem mantissaOf_exact (hn : 0 < n) (h : n ≤ 2 ^ 53) :
    mantissaOf n * 2 ^ (n.log2 + 1) = n * 2 ^ 53 := by
  obtain ⟨m, hm⟩ : 2 ^ (n.log2 + 1) ∣ n * 2 ^ 53 := by
    rcases Nat.eq_or_lt_of_le h with rfl | hlt
    · rw [Nat.log2_two_pow, ← Nat.pow_add]
      exact Nat.pow_dvd_pow 2 (by decide)
    · have hlog : n.log2 + 1 ≤ 53 := (Nat.log2_lt (by omega)).2 hlt
      exact Dvd.dvd.mul_left (Nat.pow_dvd_pow 2 hlog) n
  rw [mantissaOf, hm, Nat.mul_comm _ m, shiftRight_exact]
  rfl

theorem position_toFloat (hn : 0 < n) (h : n < 2 ^ 64) :
    position (Decimal.toFloat ⟨n, 0⟩).toModel.unpack = mantissaOf n * 2 ^ (n.log2 + 1022) := by
  obtain ⟨a, b, htrim, hproduct⟩ := Decimal.exists_trim_whole n
  have ha : a ≠ 0 := by
    rintro rfl
    omega
  have hlog : n.log2 < 64 := (Nat.log2_lt (by omega)).2 h
  have hb : b < 64 := by
    refine (Nat.pow_lt_pow_iff_right (a := 2) (by decide)).1 (lt_of_le_of_lt ?_ h)
    calc 2 ^ b ≤ 10 ^ b := Nat.pow_le_pow_left (by decide) b
      _ ≤ a * 10 ^ b := Nat.le_mul_of_pos_left _ (Nat.pos_of_ne_zero ha)
      _ = n := hproduct
  obtain ⟨m, s, hm, hround, hmantissa, hm52, hs⟩ :=
    roundWithAccuracy_parts (E := -53) (log2_mantissa hn) (by omega) .positive
  have hcanonical : Canonical m (-53 + (n.log2 + 1 : ℕ) + s) := by
    rw [canonical_iff, hm52]
    omega
  have hunpack : (Decimal.toFloat ⟨n, 0⟩).toModel.unpack =
      .finite .positive m (-53 + (n.log2 + 1 : ℕ) + s) hm := by
    show (Float.Model.pack (UnpackedFloat.ofScientific _ _ _)).unpack = _
    rw [htrim, ofScientific_product ha (by omega), hproduct, hround,
      unpack_pack_canonical hm hcanonical (by omega)]
  have hexponent : (-53 + ((n.log2 + 1 : ℕ) : ℤ) + s + 1074).toNat = s + (n.log2 + 1022) := by
    omega
  rw [hunpack, position, Sign.apply, steps, hexponent, Nat.pow_add, ← Nat.mul_assoc, ← hmantissa]
  push_cast
  rfl

theorem position_toFloat_zero : position (Decimal.toFloat ⟨0, 0⟩).toModel.unpack = 0 := by
  show position (Float.Model.pack (UnpackedFloat.ofScientific _ _ _)).unpack = 0
  rw [Decimal.trim_zero]
  rfl

theorem position_toFloat_mono (h : n ≤ n') (h' : n' < 2 ^ 64) :
    position (Decimal.toFloat ⟨n, 0⟩).toModel.unpack ≤
      position (Decimal.toFloat ⟨n', 0⟩).toModel.unpack := by
  rcases Nat.eq_zero_or_pos n' with rfl | hpos'
  · rw [Nat.le_zero.1 h]
  rw [position_toFloat hpos' h']
  rcases Nat.eq_zero_or_pos n with rfl | hpos
  · rw [position_toFloat_zero]
    positivity
  rw [position_toFloat hpos (by omega), pow_add, pow_add, ← mul_assoc, ← mul_assoc]
  exact mul_le_mul_of_nonneg_right (by exact_mod_cast mantissaOf_mul_mono hpos h) (by positivity)

theorem position_toFloat_exact (h : n ≤ 2 ^ 53) :
    position (Decimal.toFloat ⟨n, 0⟩).toModel.unpack = n * 2 ^ 1074 := by
  rcases Nat.eq_zero_or_pos n with rfl | hpos
  · rw [position_toFloat_zero, Nat.cast_zero, zero_mul]
  have hexact : (mantissaOf n * 2 ^ (n.log2 + 1) : ℤ) = n * 2 ^ 53 := by
    exact_mod_cast mantissaOf_exact hpos h
  rw [position_toFloat hpos (by omega), show n.log2 + 1022 = n.log2 + 1 + 1021 by omega, pow_add,
    ← mul_assoc, hexact, mul_assoc, ← pow_add]

end

theorem Unsigned.isNaN_eq {f : UnpackedFloat} (h : Unsigned f) : f.isNaN = false := by
  cases f with
  | notANumber => exact h.elim
  | _ => rfl

theorem isNaN_of_unpack {x : Float} {f : UnpackedFloat} (hx : x.toModel.unpack = f) :
    x.isNaN = f.isNaN := by
  rw [← hx]
  rfl

theorem isNaN_neg (x : Float) : (-x).isNaN = x.isNaN := by
  rw [isNaN_of_unpack (unpack_neg x), isNaN_of_unpack rfl]
  cases x.toModel.unpack <;> rfl

theorem isNaN_toFloat (d : Decimal) : d.toFloat.isNaN = false :=
  d.unsigned_toFloat.isNaN_eq

theorem isNaN_realOfInt (n : ℤ) : (realOfInt n).isNaN = false := by
  rw [realOfInt]
  split
  · rw [isNaN_neg, isNaN_toFloat]
  · exact isNaN_toFloat _

theorem position_realOfInt (n : ℤ) :
    position (realOfInt n).toModel.unpack =
      if n < 0 then -position (Decimal.toFloat ⟨n.natAbs, 0⟩).toModel.unpack
      else position (Decimal.toFloat ⟨n.natAbs, 0⟩).toModel.unpack := by
  rw [realOfInt]
  split
  · rw [unpack_neg, position_neg]
  · rfl

theorem position_realOfInt_mono {a b : ℤ} (ha : InWord a) (hb : InWord b) (h : a ≤ b) :
    position (realOfInt a).toModel.unpack ≤ position (realOfInt b).toModel.unpack := by
  have hnonneg {n : ℤ} (hn : InWord n) :
      0 ≤ position (Decimal.toFloat ⟨n.natAbs, 0⟩).toModel.unpack := by
    obtain ⟨hmin, hmax⟩ := hn
    exact position_toFloat_zero.symm.trans_le
      (position_toFloat_mono (Nat.zero_le n.natAbs) (by omega))
  rw [position_realOfInt, position_realOfInt]
  obtain ⟨hmin, hmax⟩ := ha
  obtain ⟨hmin', hmax'⟩ := hb
  split <;> split
  · exact neg_le_neg (position_toFloat_mono (by omega) (by omega))
  · exact le_trans (neg_nonpos.2 (hnonneg ⟨hmin, hmax⟩)) (hnonneg ⟨hmin', hmax'⟩)
  · omega
  · exact position_toFloat_mono (by omega) (by omega)

theorem position_realOfInt_exact {n : ℤ} (h : n.natAbs ≤ 2 ^ 53) :
    position (realOfInt n).toModel.unpack = n * 2 ^ 1074 := by
  rw [position_realOfInt, position_toFloat_exact h]
  generalize (2 : ℤ) ^ 1074 = unit
  split
  · next hneg => rw [← neg_mul, Int.ofNat_natAbs_of_nonpos hneg.le, neg_neg]
  · next hpos => rw [Int.natAbs_of_nonneg (Int.not_lt.1 hpos)]

end TagScript
