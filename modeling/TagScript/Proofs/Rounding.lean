import Mathlib

/-!
# Rounding and the parts of a real

Reals are computed by their reference model, which splits a real into sign, mantissa and exponent,
works on these and rounds. Here is what the decimals need of it: rounding a number that a real holds
changes nothing (`roundWithAccuracy_exact`), so a product or quotient that a real holds is found
exactly (`ofScientific_mul`, `ofScientific_div`), and rounding a number with many bits keeps the
first of them (`roundWithAccuracy_large`).
-/

namespace TagScript

open Float.Model Float.Model.UnpackedFloat

/-- The exponent is the one that a real with this mantissa has. -/
def Canonical (m : Nat) (e : Int) : Prop :=
  Format.binary64.targetExponent (totalExponent m e) = e

theorem canonical_iff {m : Nat} {e : Int} :
    Canonical m e ↔ max ((m.log2 : Int) + 1 + e - 53) (-1074) = e :=
  Iff.rfl

theorem Canonical.lt_two_pow {m : Nat} {e : Int} (h : Canonical m e) : m < 2 ^ 53 := by
  have hlog : m.log2 + 1 ≤ 53 := by
    rw [canonical_iff] at h
    omega
  exact lt_of_lt_of_le Nat.lt_log2_self (Nat.pow_le_pow_right (by decide) hlog)

/-! ### Rounding what needs no rounding -/

theorem log2_mul_two_pow {m : Nat} (hm : 0 < m) (s : Nat) : (m * 2 ^ s).log2 = m.log2 + s := by
  have hne : m * 2 ^ s ≠ 0 := Nat.ne_of_gt (Nat.mul_pos hm (Nat.two_pow_pos s))
  rw [Nat.log2_eq_iff hne, Nat.pow_add, Nat.add_right_comm, Nat.pow_add]
  exact ⟨Nat.mul_le_mul_right _ (Nat.log2_self_le (Nat.ne_of_gt hm)),
    Nat.mul_lt_mul_of_pos_right Nat.lt_log2_self (Nat.two_pow_pos s)⟩

theorem shiftRight_succ (em : ExtendedMantissa) (s : Nat) :
    em >>> (s + 1) = (em >>> s).shiftRightOne :=
  rfl

theorem shiftRight_exact (m s : Nat) :
    (⟨m * 2 ^ s, false, false⟩ : ExtendedMantissa) >>> s = ⟨m, false, false⟩ := by
  induction s generalizing m with
  | zero => rw [Nat.pow_zero, Nat.mul_one]; rfl
  | succ s ih =>
    rw [shiftRight_succ, Nat.pow_succ, Nat.mul_comm (2 ^ s), ← Nat.mul_assoc, ih]
    simp [ExtendedMantissa.shiftRightOne]

theorem shiftToTargetExponent_exact {m : Nat} {e : Int} (hm : 0 < m) (h : Canonical m e)
    (s : Nat) :
    shiftToTargetExponent Format.binary64 (m * 2 ^ s) (e - s) .exact = (⟨m, false, false⟩, e) := by
  have htotal : totalExponent (m * 2 ^ s) (e - s) = totalExponent m e := by
    rw [totalExponent, totalExponent, log2_mul_two_pow hm]
    omega
  have hshift : (e - (e - s)).toNat = s := by omega
  have hexponent : e - s + s = e := by omega
  rw [shiftToTargetExponent, htotal, h, shiftToExponent, hshift, hexponent]
  exact congrArg (·, e) (shiftRight_exact m s)

theorem roundWithAccuracy_exact {m : Nat} {e : Int} (hm : 0 < m) (h : Canonical m e) (sign : Sign)
    (s : Nat) :
    roundWithAccuracy Format.binary64 sign (m * 2 ^ s) (e - s) .exact = .finite sign m e hm := by
  have hagain := shiftToTargetExponent_exact hm h 0
  rw [Nat.pow_zero, Nat.mul_one, Int.ofNat_zero, Int.sub_zero] at hagain
  have hround : (⟨m, false, false⟩ : ExtendedMantissa).roundedMantissa = m := rfl
  rw [roundWithAccuracy, shiftToTargetExponent_exact hm h s]
  dsimp only
  rw [hround, hagain]
  exact dif_neg (Nat.ne_of_gt hm)

/-! ### Decimals that a real holds -/

theorem two_zpow_log2_le {n : Nat} (hn : 0 < n) : (2 : ℚ) ^ (n.log2 : Int) ≤ n := by
  rw [zpow_natCast]
  exact_mod_cast Nat.log2_self_le (Nat.ne_of_gt hn)

theorem lt_two_zpow_log2 (n : Nat) : (n : ℚ) < 2 ^ (n.log2 + 1 : Int) := by
  have h : (n : ℚ) < 2 ^ (n.log2 + 1) := by exact_mod_cast Nat.lt_log2_self
  exact_mod_cast h

theorem le_of_two_zpow_lt {a b : Int} (h : (2 : ℚ) ^ a < 2 ^ (b + 1)) : a ≤ b :=
  Int.lt_add_one_iff.1 ((zpow_lt_zpow_iff_right₀ (by norm_num)).1 h)

theorem two_pow_toNat {a : Int} (ha : 0 ≤ a) : (2 : ℚ) ^ a.toNat = 2 ^ a := by
  rw [← zpow_natCast, Int.toNat_of_nonneg ha]

/-- A quotient that a real holds leaves no remainder. -/
theorem divCore_exact {n m p : Nat} {e : Int} (hn : 0 < n) (hp : 0 < p) (h : Canonical m e)
    (hvalue : (n : ℚ) = m * 2 ^ e * p) :
    ∃ s : Nat, divCore Format.binary64 n 0 p 0 = (m * 2 ^ s, e - s, .exact) := by
  -- the quotient has no more bits than `m * 2 ^ e`
  have hlog : (n.log2 : Int) ≤ m.log2 + 1 + e + p.log2 := by
    refine le_of_two_zpow_lt ?_
    calc (2 : ℚ) ^ (n.log2 : Int) ≤ n := two_zpow_log2_le hn
      _ = m * 2 ^ e * p := hvalue
      _ < 2 ^ (m.log2 + 1 : Int) * 2 ^ e * 2 ^ (p.log2 + 1 : Int) := by
          gcongr
          · exact lt_two_zpow_log2 m
          · exact lt_two_zpow_log2 p
      _ = 2 ^ (m.log2 + 1 + e + p.log2 + 1 : Int) := by
          rw [← zpow_add₀ two_ne_zero, ← zpow_add₀ two_ne_zero, add_assoc _ _ (1 : Int)]
  obtain ⟨t, ht⟩ : ∃ t : Int, t = min 0 (max ((n.log2 : Int) - p.log2 - 53) (-1074)) := ⟨_, rfl⟩
  have hte : t ≤ e := by
    rw [canonical_iff] at h
    omega
  have htarget : min (0 - 0) (Format.binary64.targetExponent
      (totalExponent n 0 - totalExponent p 0)) = t := by
    have htotal : totalExponent n 0 - totalExponent p 0 = (n.log2 : Int) - p.log2 := by
      rw [totalExponent, totalExponent]
      omega
    rw [htotal, ht]
    rfl
  have hdividend : n <<< (0 - 0 - t).toNat = m * 2 ^ (e - t).toNat * p := by
    have hq : (n : ℚ) * 2 ^ (0 - 0 - t).toNat = m * 2 ^ (e - t).toNat * p := by
      rw [two_pow_toNat (by omega), two_pow_toNat (by omega), hvalue, zpow_sub₀ two_ne_zero e t,
        zpow_sub₀ two_ne_zero _ t]
      ring
    rw [Nat.shiftLeft_eq]
    exact_mod_cast hq
  refine ⟨(e - t).toNat, ?_⟩
  rw [divCore, htarget, hdividend, Nat.mul_div_cancel _ hp, Nat.mul_mod_left,
    show e - (e - t).toNat = t by omega]
  rfl

section

variable {n m j : Nat} {e : Int} (hm : 0 < m) (h : Canonical m e)

include h

/-- A product that a real holds. -/
theorem ofScientific_mul (hvalue : (n : ℚ) * 10 ^ j = m * 2 ^ e) (he : e ≤ 971) :
    UnpackedFloat.ofScientific Format.binary64 n j = .finite .positive m e hm := by
  have hmpos : (0 : ℚ) < m := by exact_mod_cast hm
  have hnpos : 0 < n := by
    have hpos : (0 : ℚ) < n * 10 ^ j := by
      rw [hvalue]
      positivity
    exact_mod_cast pos_of_mul_pos_left hpos (by positivity)
  have hone : (1 : ℚ) ≤ n := by exact_mod_cast hnpos
  have hupper : (m : ℚ) * 2 ^ e < 2 ^ (e + 53) := by
    have hlt : (m : ℚ) < 2 ^ (53 : Int) := by exact_mod_cast h.lt_two_pow
    rw [zpow_add₀ two_ne_zero, mul_comm]
    exact mul_lt_mul_of_pos_left hlt (by positivity)
  -- ten to the `j` is at least two to the `j`
  have hj : (j : Int) ≤ e + 52 := by
    refine le_of_two_zpow_lt ?_
    calc (2 : ℚ) ^ (j : Int) = 2 ^ j := zpow_natCast 2 j
      _ ≤ 10 ^ j := pow_le_pow_left₀ (by norm_num) (by norm_num) j
      _ ≤ n * 10 ^ j := le_mul_of_one_le_left (by positivity) hone
      _ < 2 ^ (e + 52 + 1) := by rw [hvalue, add_assoc]; exact hupper
  have hproduct : n <<< 53 * 10 ^ j = m * 2 ^ (e + 53).toNat := by
    have hcast : ((2 : ℚ) ^ (e + 53).toNat) = 2 ^ (e + 53) := by
      rw [← zpow_natCast, Int.toNat_of_nonneg (by omega)]
    have hq : (n : ℚ) * 2 ^ 53 * 10 ^ j = m * 2 ^ (e + 53).toNat := by
      rw [hcast, zpow_add₀ two_ne_zero, ← mul_assoc, ← hvalue]
      norm_num
      ring
    rw [Nat.shiftLeft_eq]
    exact_mod_cast hq
  have hround := roundWithAccuracy_exact hm h .positive (e + 53).toNat
  rw [← hproduct, show e - (e + 53).toNat = -53 by omega] at hround
  rw [UnpackedFloat.ofScientific, dif_neg (Nat.ne_of_gt hnpos), if_neg (by norm_num; omega),
    if_neg (by norm_num; omega), if_pos (Int.natCast_nonneg j)]
  exact hround

/-- A quotient that a real holds. -/
theorem ofScientific_div (hvalue : (n : ℚ) = m * 2 ^ e * 10 ^ (j + 1)) :
    UnpackedFloat.ofScientific Format.binary64 n (-(j + 1 : Nat)) = .finite .positive m e hm := by
  have hmpos : (0 : ℚ) < m := by exact_mod_cast hm
  have hnpos : 0 < n := by
    have hpos : (0 : ℚ) < n := by
      rw [hvalue]
      positivity
    exact_mod_cast hpos
  have hmin : -1074 ≤ e := by
    rw [canonical_iff] at h
    omega
  -- ten to the `j + 1` is at least two to the `3 * (j + 1)`
  have hj : 3 * (j + 1 : Int) + e ≤ n.log2 := by
    refine le_of_two_zpow_lt ?_
    calc (2 : ℚ) ^ (3 * (j + 1 : Int) + e) = 1 * 2 ^ e * 8 ^ (j + 1) := by
          rw [zpow_add₀ two_ne_zero, zpow_mul, one_mul, mul_comm]
          norm_cast
      _ ≤ m * 2 ^ e * 10 ^ (j + 1) := by
          gcongr
          · exact_mod_cast hm
          · norm_num
      _ = n := hvalue.symm
      _ < 2 ^ (n.log2 + 1 : Int) := lt_two_zpow_log2 n
  obtain ⟨s, hcore⟩ := divCore_exact (p := 10 ^ (j + 1)) hnpos (by positivity) h
    (by rw [hvalue]; norm_cast)
  have hround := roundWithAccuracy_exact hm h .positive s
  rw [UnpackedFloat.ofScientific, dif_neg (Nat.ne_of_gt hnpos), if_neg (by norm_num; omega),
    if_neg (by norm_num; omega), if_neg (by omega), UnpackedFloat.div]
  simp only [neg_neg, Int.toNat_natCast, hcore]
  exact hround

end

/-! ### Reals and their parts -/

theorem toNat_implicit (b : BitVec 52) : (1#1 ++ b).toNat = 2 ^ 52 + b.toNat := by
  rw [BitVec.toNat_append, ← Nat.shiftLeft_add_eq_or_of_lt b.isLt]
  rfl

theorem log2_implicit (b : BitVec 52) : (1#1 ++ b).toNat.log2 = 52 := by
  rw [toNat_implicit, Nat.log2_eq_iff (by omega)]
  have hlt := b.isLt
  omega

/-- The parts of a finite real. -/
theorem canonical_of_unpack {x : Float.Model} {sign : Sign} {m : Nat} {e : Int} {hm : 0 < m}
    (h : x.unpack = .finite sign m e hm) : Canonical m e ∧ e ≤ 971 := by
  have hbias : (Format.binary64.exponentBias : Int) + Format.binary64.mantissaBitsWithoutImplicit =
      1075 := rfl
  revert h
  unfold Float.Model.unpack
  fun_cases UnpackedFloat.unpack with
  | case1 => nofun
  | case2 => nofun
  | case3 => nofun
  | case4 mantissa exponent e' signVec sign' hone hzero hmantissa => 
    -- below the smallest exponent there are fewer bits
    intro h
    obtain ⟨-, rfl, rfl⟩ := UnpackedFloat.finite.inj h
    have hexponent : e' = -1075 := by
      show (exponent.toNat : Int) - _ = _
      rw [hzero, hbias]
      rfl
    have hlog : mantissa.toNat.log2 < 52 := (Nat.log2_lt (Nat.ne_of_gt hm)).2 mantissa.isLt
    rw [canonical_iff, hexponent]
    omega
  | case5 mantissa exponent e' signVec sign' hone hzero =>
    intro h
    obtain ⟨-, rfl, rfl⟩ := UnpackedFloat.finite.inj h
    have hexponent : e' = (exponent.toNat : Int) - 1075 := by
      show (exponent.toNat : Int) - _ = _
      rw [hbias]
    have hpos : exponent.toNat ≠ 0 := fun h => hzero (BitVec.eq_of_toNat_eq h)
    have hlt : exponent.toNat < 2047 := by
      have hne : exponent.toNat ≠ 2047 := fun h => hone (BitVec.eq_of_toNat_eq h)
      have hbits : exponent.toNat < 2048 := exponent.isLt
      omega
    rw [canonical_iff, log2_implicit, hexponent]
    omega

theorem pack_unpack_model (x : Float.Model) : Float.Model.pack x.unpack = x := by
  have h := pack_unpack_of_valid x.valid
  obtain ⟨bits, valid⟩ := x
  simp only [Float.Model.pack, Float.Model.unpack, Float.Model.mk.injEq]
  exact congrArg UInt64.ofBitVec h

theorem pack_finite {m : Nat} {e : Int} (hm : 0 < m) (he : e ≤ 971) (sign : Sign) :
    UnpackedFloat.pack Format.binary64 (.finite sign m e hm) =
      packComponents Format.binary64 sign
        (BitVec.ofNat 11 (if m.log2 = 52 then (e + 1075).toNat else 0)) (BitVec.ofNat 52 m) := by
  have hexponent : (e + Format.binary64.exponentBias +
      Format.binary64.mantissaBitsWithoutImplicit).toNat = (e + 1075).toNat := by
    show (e + 1023 + 52).toNat = _
    omega
  have hfits : ¬ 2 ^ Format.binary64.exponentBits ≤ (e + 1075).toNat + 1 := by
    show ¬ 2048 ≤ _
    omega
  rw [UnpackedFloat.pack, hexponent, if_neg hfits]
  split
  · next hlog => rw [if_pos (Nat.succ.inj hlog)]
  · next hlog => rw [if_neg (mt (congrArg Nat.succ) hlog)]

/-- The parts of a finite real are found again. -/
theorem unpack_pack_canonical {m : Nat} {e : Int} (hm : 0 < m) (h : Canonical m e) (he : e ≤ 971)
    (sign : Sign) : (Float.Model.pack (.finite sign m e hm)).unpack = .finite sign m e hm := by
  have hlt := h.lt_two_pow
  show UnpackedFloat.unpack Format.binary64 (UnpackedFloat.pack Format.binary64 _) = _
  rw [pack_finite hm he]
  rw [canonical_iff] at h
  simp only [UnpackedFloat.unpack, unpackMantissa_packComponents, unpackExponent_packComponents,
    unpackSign_packComponents, Sign.ofBitVec_toBitVec]
  by_cases hlog : m.log2 = 52
  · have hlarge : 2 ^ 52 ≤ m := hlog ▸ Nat.log2_self_le (Nat.ne_of_gt hm)
    have hbiased : (BitVec.ofNat 11 (e + 1075).toNat).toNat = (e + 1075).toNat := by
      rw [BitVec.toNat_ofNat, Nat.mod_eq_of_lt (by omega)]
    have hone : BitVec.ofNat 11 (e + 1075).toNat ≠ -1#11 := by
      intro h
      have : (BitVec.ofNat 11 (e + 1075).toNat).toNat = 2047 := congrArg BitVec.toNat h
      omega
    have hzero : BitVec.ofNat 11 (e + 1075).toNat ≠ 0#11 := by
      intro h
      have : (BitVec.ofNat 11 (e + 1075).toNat).toNat = 0 := congrArg BitVec.toNat h
      omega
    have hmantissa : (1#1 ++ BitVec.ofNat 52 m).toNat = m := by
      rw [toNat_implicit, BitVec.toNat_ofNat]
      omega
    rw [if_pos hlog, if_neg hone, if_neg hzero]
    congr 1
    rw [hbiased]
    show ((e + 1075).toNat : Int) - (1023 + 52) = e
    omega
  · -- below the smallest exponent the mantissa stands in full
    have hsmall : m < 2 ^ 52 := by
      rw [← Nat.log2_lt (Nat.ne_of_gt hm)]
      omega
    have hmantissa : (BitVec.ofNat 52 m).toNat = m := by
      rw [BitVec.toNat_ofNat, Nat.mod_eq_of_lt hsmall]
    have hzero : BitVec.ofNat 52 m ≠ 0#52 := by
      intro h
      have : (BitVec.ofNat 52 m).toNat = 0 := congrArg BitVec.toNat h
      omega
    rw [if_neg hlog, if_neg (by decide), if_pos rfl, dif_neg hzero]
    congr 1
    show (0 : Int) - (1023 + 52) + 1 = e
    omega

/-! ### Signs -/

/-- A number that is not below zero. -/
def Unsigned : UnpackedFloat → Prop
  | .notANumber => False
  | .infinity sign | .zero sign | .finite sign .. => sign = .positive

theorem unsigned_packComponents {exponent : BitVec 11} {mantissa : BitVec 52}
    (h : exponent = -1#11 → mantissa = 0#52) :
    Unsigned (UnpackedFloat.unpack Format.binary64
      (packComponents Format.binary64 .positive exponent mantissa)) := by
  simp only [UnpackedFloat.unpack, unpackMantissa_packComponents, unpackExponent_packComponents,
    unpackSign_packComponents, Sign.ofBitVec_toBitVec]
  split
  · next hone =>
    rw [if_pos (h hone)]
    rfl
  · split
    · split <;> rfl
    · rfl

theorem unsigned_unpack_pack {f : UnpackedFloat} (h : Unsigned f) :
    Unsigned (Float.Model.pack f).unpack := by
  show Unsigned (UnpackedFloat.unpack Format.binary64 (UnpackedFloat.pack Format.binary64 f))
  fun_cases UnpackedFloat.pack with
  | case1 => exact h.elim
  | case2 sign =>
    obtain rfl : sign = .positive := h
    exact unsigned_packComponents fun _ => rfl
  | case3 sign =>
    obtain rfl : sign = .positive := h
    exact unsigned_packComponents fun _ => rfl
  | case4 sign =>
    obtain rfl : sign = .positive := h
    exact unsigned_packComponents fun _ => rfl
  | case5 sign m e hm bits biased hfits hnormal =>
    obtain rfl : sign = .positive := h
    refine unsigned_packComponents fun hone => ?_
    have hbiased : biased % 2048 = 2047 := congrArg BitVec.toNat hone
    have hlt : ¬ 2048 ≤ biased + 1 := hfits
    omega
  | case6 sign m e hm bits biased hfits hnormal =>
    obtain rfl : sign = .positive := h
    exact unsigned_packComponents nofun

/-! ### Large numbers -/

theorem mantissa_shiftRight (em : ExtendedMantissa) (k : Nat) :
    (em >>> k).mantissa = em.mantissa / 2 ^ k := by
  induction k with
  | zero => exact (Nat.div_one _).symm
  | succ k ih =>
    rw [shiftRight_succ, ExtendedMantissa.shiftRightOne, ih, Nat.div_div_eq_div_mul, Nat.pow_succ]

theorem roundedMantissa_bounds (em : ExtendedMantissa) :
    em.mantissa ≤ em.roundedMantissa ∧ em.roundedMantissa ≤ em.mantissa + 1 := by
  obtain ⟨m, round, sticky⟩ := em
  cases round <;> cases sticky
  all_goals
    simp only [ExtendedMantissa.roundedMantissa, ExtendedMantissa.accuracy,
      Accuracy.roundToNearestEven]
    omega

section

variable {M k : Nat} {E : Int} (hk : M.log2 = 52 + k)

include hk

theorem shiftToTargetExponent_large (hE : -1074 ≤ E + k) :
    shiftToTargetExponent Format.binary64 M E .exact =
      ((⟨M, false, false⟩ : ExtendedMantissa) >>> k, E + k) := by
  have htarget : Format.binary64.targetExponent (totalExponent M E) = E + k := by
    show max ((M.log2 : Int) + 1 + E - 53) (-1074) = _
    omega
  rw [shiftToTargetExponent, htarget, shiftToExponent, show (E + k - E).toNat = k by omega]
  rfl

/-- The bits that are left after shifting, rounded. -/
theorem roundedMantissa_large (hM : M ≠ 0) :
    2 ^ 52 ≤ ((⟨M, false, false⟩ : ExtendedMantissa) >>> k).roundedMantissa ∧
      ((⟨M, false, false⟩ : ExtendedMantissa) >>> k).roundedMantissa ≤ 2 ^ 53 := by
  have hround := roundedMantissa_bounds ((⟨M, false, false⟩ : ExtendedMantissa) >>> k)
  rw [mantissa_shiftRight] at hround
  have hlow : 2 ^ 52 ≤ M / 2 ^ k := by
    rw [Nat.le_div_iff_mul_le (Nat.two_pow_pos k), ← Nat.pow_add, ← hk]
    exact Nat.log2_self_le hM
  have hhigh : M / 2 ^ k < 2 ^ 53 := by
    rw [Nat.div_lt_iff_lt_mul (Nat.two_pow_pos k), ← Nat.pow_add]
    have hlt := Nat.lt_log2_self (n := M)
    rwa [hk, Nat.add_right_comm] at hlt
  dsimp only at hround
  omega

/-- A number with more bits than a real has: its first bits, rounded. A carry moves the exponent. -/
theorem roundWithAccuracy_parts (hE : -1074 ≤ E + k) (sign : Sign) :
    ∃ m, ∃ s : Nat, ∃ hm,
      roundWithAccuracy Format.binary64 sign M E .exact = .finite sign m (E + k + s) hm ∧
      ((⟨M, false, false⟩ : ExtendedMantissa) >>> k).roundedMantissa = m * 2 ^ s ∧
        m.log2 = 52 ∧ s ≤ 1 := by
  have hne : M ≠ 0 := by
    rintro rfl
    simp at hk
    omega
  obtain ⟨hlow, hhigh⟩ := roundedMantissa_large hk hne
  generalize hr : ((⟨M, false, false⟩ : ExtendedMantissa) >>> k).roundedMantissa = r at hlow hhigh
  -- a carry is shifted out again
  obtain ⟨m, s, hrm, hm, hs⟩ : ∃ m s, r = m * 2 ^ s ∧ m.log2 = 52 ∧ s ≤ 1 := by
    by_cases hcarry : r = 2 ^ 53
    · exact ⟨2 ^ 52, 1, hcarry, Nat.log2_two_pow, le_refl 1⟩
    · refine ⟨r, 0, (Nat.mul_one r).symm, ?_, Nat.zero_le 1⟩
      rw [Nat.log2_eq_iff (by omega)]
      omega
  have hmpos : 0 < m := by
    rw [Nat.pos_iff_ne_zero]
    rintro rfl
    simp at hm
  have hcanonical : Canonical m (E + k + s) := by
    rw [canonical_iff, hm]
    omega
  have hagain := shiftToTargetExponent_exact hmpos hcanonical s
  rw [← hrm, Int.add_sub_cancel] at hagain
  refine ⟨m, s, hmpos, ?_, hrm, hm, hs⟩
  rw [roundWithAccuracy, shiftToTargetExponent_large hk hE]
  dsimp only
  rw [hr, hagain]
  exact dif_neg (Nat.ne_of_gt hmpos)

/-- A number with more bits than a real has keeps its first bit in rounding. -/
theorem roundWithAccuracy_large (hE : -1074 ≤ E + k) (sign : Sign) :
    ∃ m e hm, roundWithAccuracy Format.binary64 sign M E .exact = .finite sign m e hm ∧
      m.log2 = 52 ∧ E + k ≤ e := by
  obtain ⟨m, s, hm, hround, -, hlog, -⟩ := roundWithAccuracy_parts hk hE sign
  exact ⟨m, E + k + s, hm, hround, hlog, by omega⟩

end

theorem unpack_pack_large {m : Nat} {e : Int} (hm : 0 < m) (hlog : m.log2 = 52) (he : 0 ≤ e) :
    (Float.Model.pack (.finite .positive m e hm)).unpack = .infinity .positive ∨
      ∃ m' hm', (Float.Model.pack (.finite .positive m e hm)).unpack = .finite .positive m' e hm' ∧
        2 ^ 52 ≤ m' := by
  have hcanonical : Canonical m e := by
    rw [canonical_iff, hlog]
    omega
  by_cases hfits : e ≤ 971
  · exact .inr ⟨m, hm, unpack_pack_canonical hm hcanonical hfits .positive,
      hlog ▸ Nat.log2_self_le (Nat.ne_of_gt hm)⟩
  · have hpack : UnpackedFloat.pack Format.binary64 (.finite .positive m e hm) =
        packedInfinity Format.binary64 .positive := by
      have hbeyond : 2 ^ Format.binary64.exponentBits ≤ (e + Format.binary64.exponentBias +
          Format.binary64.mantissaBitsWithoutImplicit).toNat + 1 := by
        show 2048 ≤ (e + 1023 + 52).toNat + 1
        omega
      rw [UnpackedFloat.pack, if_pos hbeyond]
    left
    show UnpackedFloat.unpack Format.binary64 (UnpackedFloat.pack Format.binary64 _) = _
    rw [hpack]
    rfl

/-- A product is rounded once. -/
theorem ofScientific_product {a b : Nat} (ha : a ≠ 0) (hb : b ≤ 2 ^ 11) :
    UnpackedFloat.ofScientific Format.binary64 a b =
      roundWithAccuracy Format.binary64 .positive (a * 10 ^ b * 2 ^ 53) (-53) .exact := by
  have hproduct : a <<< 53 * 10 ^ b = a * 10 ^ b * 2 ^ 53 := by
    rw [Nat.shiftLeft_eq]
    ring
  rw [UnpackedFloat.ofScientific, dif_neg ha, if_neg (by norm_num; omega),
    if_neg (by norm_num; omega), if_pos (Int.natCast_nonneg b), ← hproduct]
  rfl

/-- A product of `2 ^ 63` or more is rounded to a number that is not smaller. -/
theorem ofScientific_large {a b : Nat} (h : 2 ^ 63 ≤ a * 10 ^ b) :
    UnpackedFloat.ofScientific Format.binary64 a b = .infinity .positive ∨
      ∃ m e hm, UnpackedFloat.ofScientific Format.binary64 a b = .finite .positive m e hm ∧
        m.log2 = 52 ∧ 11 ≤ e := by
  have ha : a ≠ 0 := by
    rintro rfl
    omega
  by_cases hb : (b : Int) > 2 ^ 11
  · left
    rw [UnpackedFloat.ofScientific, dif_neg ha, if_pos hb]
  · right
    have hlog : 63 ≤ (a * 10 ^ b).log2 := (Nat.le_log2 (by omega)).2 h
    have hbits : (a * 10 ^ b * 2 ^ 53).log2 = 52 + ((a * 10 ^ b).log2 + 1) := by
      rw [log2_mul_two_pow (by omega)]
      omega
    obtain ⟨m, e, hm, hround, hm52, he⟩ :=
      roundWithAccuracy_large (E := -53) hbits (by omega) .positive
    refine ⟨m, e, hm, ?_, hm52, by omega⟩
    rw [ofScientific_product ha (by omega), hround]

end TagScript
