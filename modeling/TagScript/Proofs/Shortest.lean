import TagScript.Decimal.Layout
import TagScript.Proofs.Rounding

/-!
# Decimals read back

Reading a decimal depends on its value only (`toFloat_congr`), and a decimal whose value is exactly
that of a real is read as that real (`toFloat_eq_of_value`), so `shortest` reads back
(`toFloat_shortest`).

A whole number beyond the words is read as a real that is beyond them too, and the shortest decimal
of such a real is again a whole number beyond them (`shortest_large`).
-/

namespace TagScript

open Float.Model Float.Model.UnpackedFloat

namespace Decimal

def value (d : Decimal) : ℚ :=
  d.digits * 10 ^ d.exponent

/-! ### Trimmed decimals -/

theorem trim_zero (e : Int) : trim ⟨0, e⟩ = ⟨0, 0⟩ := by
  rw [trim]
  exact dif_pos rfl

theorem trim_mul_pow (n k : Nat) (e : Int) : trim ⟨n * 10 ^ k, e⟩ = trim ⟨n, e + k⟩ := by
  induction k generalizing e with
  | zero => simp
  | succ k ih =>
    by_cases hn : n = 0
    · subst hn
      rw [Nat.zero_mul, trim_zero, trim_zero]
    · have hne : n * 10 ^ (k + 1) ≠ 0 := Nat.mul_ne_zero hn (by positivity)
      have hten : n * 10 ^ (k + 1) = n * 10 ^ k * 10 := by rw [Nat.pow_succ, Nat.mul_assoc]
      rw [trim, dif_neg hne, if_pos (by rw [hten, Nat.mul_mod_left]), hten,
        Nat.mul_div_cancel _ (by decide), ih]
      congr 2
      push_cast
      ring

/-- Decimals of equal value share one trimmed form. -/
theorem trim_congr {d d' : Decimal} (h : d.value = d'.value) : d.trim = d'.trim := by
  wlog hle : d.exponent ≤ d'.exponent generalizing d d'
  · exact (this h.symm (by omega)).symm
  obtain ⟨k, hk⟩ : ∃ k : Nat, d'.exponent = d.exponent + k :=
    ⟨(d'.exponent - d.exponent).toNat, by omega⟩
  have hdigits : d.digits = d'.digits * 10 ^ k := by
    have hvalue : (d.digits : ℚ) * 10 ^ d.exponent = d'.digits * 10 ^ k * 10 ^ d.exponent := by
      rw [value, value, hk, zpow_add₀ (by norm_num), zpow_natCast] at h
      rw [h]
      ring
    exact_mod_cast mul_right_cancel₀ (by positivity) hvalue
  calc d.trim = trim ⟨d'.digits * 10 ^ k, d.exponent⟩ := by rw [← hdigits]
    _ = trim ⟨d'.digits, d'.exponent⟩ := by rw [trim_mul_pow, hk]

theorem value_trim (d : Decimal) : d.trim.value = d.value := by
  fun_induction trim d with
  | case1 d h => simp [value, h]
  | case2 d h hten ih =>
    have hdigits : (d.digits : ℚ) = (d.digits / 10 : Nat) * 10 := by
      exact_mod_cast (Nat.div_mul_cancel (Nat.dvd_of_mod_eq_zero hten)).symm
    rw [ih, value, value, hdigits, zpow_add_one₀ (by norm_num)]
    ring
  | case3 d h hten => rfl

theorem exponent_trim_nonneg {d : Decimal} (h : 0 ≤ d.exponent) : 0 ≤ d.trim.exponent := by
  fun_induction trim d with
  | case1 => exact le_refl _
  | case2 d _ _ ih => exact ih (by dsimp only; omega)
  | case3 => exact h

/-- A whole number stays one. -/
theorem exists_trim_whole (n : Nat) :
    ∃ a b : Nat, trim ⟨n, 0⟩ = ⟨a, b⟩ ∧ a * 10 ^ b = n := by
  obtain ⟨b, hb⟩ : ∃ b : Nat, (b : Int) = (trim ⟨n, 0⟩).exponent :=
    ⟨_, Int.toNat_of_nonneg (exponent_trim_nonneg (le_refl _))⟩
  refine ⟨(trim ⟨n, 0⟩).digits, b, by rw [hb], ?_⟩
  have h := value_trim ⟨n, 0⟩
  rw [value, ← hb, value, zpow_natCast, zpow_zero, mul_one] at h
  exact_mod_cast h

/-! ### Reading -/

theorem toFloat_congr {d d' : Decimal} (h : d.value = d'.value) : d.toFloat = d'.toFloat := by
  rw [toFloat, toFloat, trim_congr h]

theorem toFloat_eq_of_value {x : Float} {m : Nat} {e : Int} {hm : 0 < m}
    (hx : x.toModel.unpack = .finite .positive m e hm) {d : Decimal} (h : d.value = m * 2 ^ e) :
    d.toFloat = x := by
  obtain ⟨hcanonical, he⟩ := canonical_of_unpack hx
  have hread : UnpackedFloat.ofScientific Format.binary64 d.trim.digits d.trim.exponent =
      .finite .positive m e hm := by
    have hvalue := value_trim d
    rw [h, value] at hvalue
    match d.trim.exponent, hvalue with
    | .ofNat j, hvalue =>
      rw [Int.ofNat_eq_natCast, zpow_natCast] at hvalue
      exact ofScientific_mul hm hcanonical hvalue he
    | .negSucc j, hvalue =>
      refine ofScientific_div hm hcanonical ?_
      rw [← hvalue, zpow_negSucc]
      field_simp
  rw [toFloat, Float.Model.ofScientific, hread, ← hx, pack_unpack_model]

theorem unsigned_roundWithAccuracy (m : Nat) (e : Int) (accuracy : Accuracy) :
    Unsigned (roundWithAccuracy Format.binary64 .positive m e accuracy) := by
  unfold roundWithAccuracy
  dsimp only
  split <;> rfl

theorem unsigned_toFloat (d : Decimal) : Unsigned d.toFloat.toModel.unpack := by
  refine unsigned_unpack_pack ?_
  fun_cases UnpackedFloat.ofScientific with
  | case1 => rfl
  | case2 => rfl
  | case3 => rfl
  | case4 => exact unsigned_roundWithAccuracy _ _ _
  | case5 => exact unsigned_roundWithAccuracy _ _ _

/-! ### The shortest decimal -/

theorem toFloat_onGrid {x : Float} {num den : Nat} {grid : Int} {d : Decimal}
    (h : onGrid x num den grid = some d) :
    d.toFloat = x ∧ (d = (neighbours num den grid).1 ∨ d = (neighbours num den grid).2.1) := by
  unfold onGrid at h
  dsimp only at h
  split at h
  · next hlow hhigh =>
    obtain rfl := Option.some.inj h
    split
    · exact ⟨of_decide_eq_true hlow, .inl rfl⟩
    · exact ⟨of_decide_eq_true hhigh, .inr rfl⟩
  · next hlow _ =>
    obtain rfl := Option.some.inj h
    exact ⟨of_decide_eq_true hlow, .inl rfl⟩
  · next _ hhigh =>
    obtain rfl := Option.some.inj h
    exact ⟨of_decide_eq_true hhigh, .inr rfl⟩
  · cases h

theorem value_expansion (m : Nat) (e : Int) : (expansion m e).value = m * 2 ^ e := by
  unfold expansion
  split
  · next he =>
    rw [value_trim, value, zpow_zero, mul_one]
    have hpow : ((m * Nat.pow 2 e.toNat : Nat) : ℚ) = m * 2 ^ e.toNat := by
      exact_mod_cast rfl
    rw [hpow, two_pow_toNat he]
  · next he =>
    obtain ⟨j, rfl⟩ : ∃ j : Nat, e = -j := ⟨(-e).toNat, by omega⟩
    have hpow : ((m * Nat.pow 5 (- -(j : Int)).toNat : Nat) : ℚ) = m * 5 ^ j := by
      rw [neg_neg, Int.toNat_natCast]
      exact_mod_cast rfl
    have hten : (10 : ℚ) ^ j = 5 ^ j * 2 ^ j := by rw [← mul_pow]; norm_num
    rw [value_trim, value, hpow, zpow_neg, zpow_neg, zpow_natCast, zpow_natCast, hten]
    field_simp

/-- Where the shortest decimal comes from. -/
theorem shortest_cases (x : Float) (m : Nat) (e : Int) :
    shortest x m e = expansion m e ∨
      ∃ num den, ∃ n : Nat, n < 17 ∧ 0 < den ∧
        onGrid x num den (magnitude num den - n) = some (shortest x m e) ∧
          (0 ≤ e → num = m * 2 ^ e.toNat ∧ den = 1) := by
  unfold shortest
  extract_lets num den top
  cases hfound : (List.range 17).findSome? fun (n : Nat) => onGrid x num den (top - n) with
  | none => exact .inl rfl
  | some d =>
    obtain ⟨n, hn, hgrid⟩ := List.exists_of_findSome?_eq_some hfound
    have hden : 0 < den := by
      unfold den
      split
      · exact Nat.one_pos
      · exact Nat.two_pow_pos _
    exact .inr ⟨num, den, n, List.mem_range.1 hn, hden, hgrid, fun he => ⟨if_pos he, if_pos he⟩⟩

theorem toFloat_shortest {x : Float} {m : Nat} {e : Int} {hm : 0 < m}
    (hx : x.toModel.unpack = .finite .positive m e hm) : (shortest x m e).toFloat = x := by
  rcases shortest_cases x m e with hexpansion | ⟨num, den, n, -, -, hgrid, -⟩
  · rw [hexpansion]
    exact toFloat_eq_of_value hx (value_expansion m e)
  · exact (toFloat_onGrid hgrid).1

/-! ### Numbers beyond the words -/

theorem toFloat_large {n : Nat} (hn : 2 ^ 63 ≤ n) :
    (toFloat ⟨n, 0⟩).toModel.unpack = .infinity .positive ∨
      ∃ m e hm, (toFloat ⟨n, 0⟩).toModel.unpack = .finite .positive m e hm ∧
        2 ^ 52 ≤ m ∧ 11 ≤ e := by
  obtain ⟨a, b, htrim, hvalue⟩ := exists_trim_whole n
  show (Float.Model.pack (UnpackedFloat.ofScientific _ _ _)).unpack = _ ∨
    ∃ m e hm, (Float.Model.pack (UnpackedFloat.ofScientific _ _ _)).unpack = _ ∧ _
  rw [htrim]
  rcases ofScientific_large (hvalue ▸ hn) with hread | ⟨m, e, hm, hread, hlog, he⟩
  · rw [hread]
    exact .inl rfl
  · rw [hread]
    have he0 : 0 ≤ e := by omega
    rcases unpack_pack_large hm hlog he0 with hinf | ⟨m', hm', hfinite, hlarge⟩
    · exact .inl hinf
    · exact .inr ⟨m', e, hm', hfinite, hlarge, he⟩

/-- Mantissa and exponent. -/
def partsOf : UnpackedFloat → Nat × Int
  | .finite _ m e _ => (m, e)
  | _ => (0, 0)

/-- The multiples of `10 ^ g` just below `2 ^ 63` are read as reals below it. -/
theorem toFloat_below_words : ∀ g ∈ List.range 19, 3 ≤ g →
    (partsOf (toFloat ⟨(2 ^ 63 - 1) / 10 ^ g, g⟩).toModel.unpack).2 ≤ 10 := by
  decide +kernel

/-- Only `9223372036854775800` is read as `2 ^ 63`, which has a shorter decimal above. -/
theorem shortest_first_beyond_words :
    partsOf (toFloat ⟨(2 ^ 63 - 1) / 10 ^ 2, (2 : Nat)⟩).toModel.unpack = (2 ^ 52, 11) ∧
      shortest (toFloat ⟨(2 ^ 63 - 1) / 10 ^ 2, (2 : Nat)⟩) (2 ^ 52) 11 =
        ⟨9223372036854776, 3⟩ := by
  decide +kernel

/-- Where the grid point below a real of `2 ^ 63` or more reads back but is itself smaller, the
search has stopped before. -/
theorem value_shortest_of_below {x : Float} {m g V : Nat} {e : Int} {hm : 0 < m}
    (hx : x.toModel.unpack = .finite .positive m e hm) (he : 11 ≤ e) (hV : 2 ^ 63 ≤ V)
    (hg : 2 ≤ g) (hgV : 10 ^ g ≤ V) (hbelow : V / 10 ^ g * 10 ^ g < 2 ^ 63)
    (hread : (trim ⟨V / 10 ^ g, g⟩).toFloat = x) : 2 ^ 63 ≤ (shortest x m e).value := by
  have hten : 0 < 10 ^ g := by positivity
  have hlast : V / 10 ^ g = (2 ^ 63 - 1) / 10 ^ g := by
    refine le_antisymm ?_ (Nat.div_le_div_right (by omega))
    rw [Nat.le_div_iff_mul_le hten]
    omega
  have hg18 : g < 19 := by
    have hone : 1 ≤ V / 10 ^ g := (Nat.one_le_div_iff hten).2 hgV
    have hlt : 10 ^ g < 10 ^ 19 := by
      have hle : 1 * 10 ^ g ≤ V / 10 ^ g * 10 ^ g := Nat.mul_le_mul_right _ hone
      omega
    exact (Nat.pow_lt_pow_iff_right (by decide)).1 hlt
  have hfloat : toFloat ⟨(2 ^ 63 - 1) / 10 ^ g, g⟩ = x := by
    rw [← hlast, ← hread]
    exact toFloat_congr (value_trim _).symm
  by_cases hg3 : 3 ≤ g
  · have hparts := toFloat_below_words g (List.mem_range.2 hg18) hg3
    rw [hfloat, hx] at hparts
    exact absurd (le_trans he hparts) (by decide)
  · obtain rfl : g = 2 := by omega
    obtain ⟨hparts, hshortest⟩ := shortest_first_beyond_words
    rw [hfloat, hx] at hparts
    obtain ⟨rfl, rfl⟩ := Prod.mk.inj hparts
    rw [← hfloat, hshortest, value]
    norm_num

theorem ten_pow_length_le {n : Nat} (hn : 0 < n) : 10 ^ ((Nat.toDigits 10 n).length - 1) ≤ n := by
  by_contra hlt
  have hlength : 0 < (Nat.toDigits 10 n).length - 1 := by
    by_contra hzero
    rw [Nat.eq_zero_of_not_pos hzero] at hlt
    omega
  have hle := (Nat.length_toDigits_le_iff (by decide) hlength).2 (Nat.lt_of_not_le hlt)
  omega

/-- A number of `2 ^ 63` or more has at least nineteen digits. -/
theorem magnitude_large {V : Nat} (hV : 2 ^ 63 ≤ V) :
    ∃ top : Nat, magnitude V 1 = top ∧ 18 ≤ top ∧ 10 ^ top ≤ V := by
  have hlength : 18 < (Nat.toDigits 10 V).length := by
    by_contra hle
    have hlt := (Nat.length_toDigits_le_iff (by decide) (by decide)).1 (Nat.le_of_not_lt hle)
    omega
  refine ⟨(Nat.toDigits 10 V).length - 1, ?_, by omega, ten_pow_length_le (by omega)⟩
  rw [magnitude, if_pos (by omega), Nat.div_one]
  omega

theorem neighbours_whole (V g : Nat) :
    (neighbours V 1 g).1 = trim ⟨V / 10 ^ g, g⟩ ∧
      (neighbours V 1 g).2.1 = trim ⟨V / 10 ^ g + 1, g⟩ := by
  have hpow : 1 * Nat.pow 10 (g : Int).toNat = 10 ^ g := Nat.one_mul _
  rw [neighbours, if_pos (Int.natCast_nonneg g), hpow]
  exact ⟨rfl, rfl⟩

theorem value_trim_whole (a g : Nat) : (trim ⟨a, g⟩).value = (a * 10 ^ g : Nat) := by
  rw [value_trim, value, zpow_natCast]
  norm_cast

/-- The shortest decimal of a real of `2 ^ 63` or more is a whole number of `2 ^ 63` or more. -/
theorem shortest_large {x : Float} {m : Nat} {e : Int} {hm : 0 < m}
    (hx : x.toModel.unpack = .finite .positive m e hm) (hlarge : 2 ^ 52 ≤ m) (he : 11 ≤ e) :
    0 ≤ (shortest x m e).exponent ∧ 2 ^ 63 ≤ (shortest x m e).value := by
  have hV : 2 ^ 63 ≤ m * 2 ^ e.toNat :=
    calc 2 ^ 63 = 2 ^ 52 * 2 ^ 11 := by norm_num
      _ ≤ m * 2 ^ e.toNat := Nat.mul_le_mul hlarge (Nat.pow_le_pow_right (by decide) (by omega))
  rcases shortest_cases x m e with hexpansion | ⟨num, den, n, hn, -, hgrid, hnum⟩
  · constructor
    · rw [hexpansion, expansion, if_pos (by omega)]
      exact exponent_trim_nonneg (le_refl _)
    · rw [hexpansion, value_expansion, ← two_pow_toNat (by omega)]
      exact_mod_cast hV
  obtain ⟨rfl, rfl⟩ := hnum (by omega)
  generalize m * 2 ^ e.toNat = V at hV hgrid
  obtain ⟨top, htop, htop18, htopV⟩ := magnitude_large hV
  -- the grid is one of whole numbers
  obtain ⟨g, hg⟩ : ∃ g : Nat, (g : Int) = magnitude V 1 - n := ⟨top - n, by omega⟩
  have hgV : 10 ^ g ≤ V := le_trans (Nat.pow_le_pow_right (by decide) (by omega)) htopV
  rw [← hg] at hgrid
  obtain ⟨hread, hd⟩ := toFloat_onGrid hgrid
  rw [(neighbours_whole V g).1, (neighbours_whole V g).2] at hd
  rcases hd with hlow | hhigh
  · refine ⟨hlow ▸ exponent_trim_nonneg (Int.natCast_nonneg g), ?_⟩
    by_cases hbelow : V / 10 ^ g * 10 ^ g < 2 ^ 63
    · exact value_shortest_of_below hx he hV (by omega) hgV hbelow (hlow ▸ hread)
    · rw [hlow, value_trim_whole]
      exact_mod_cast Nat.le_of_not_lt hbelow
  · refine ⟨hhigh ▸ exponent_trim_nonneg (Int.natCast_nonneg g), ?_⟩
    have habove : V < (V / 10 ^ g + 1) * 10 ^ g := by
      rw [mul_comm]
      exact Nat.lt_mul_div_succ V (by positivity)
    rw [hhigh, value_trim_whole]
    exact_mod_cast le_trans hV habove.le

end Decimal

end TagScript
