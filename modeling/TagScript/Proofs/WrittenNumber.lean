import TagScript.Proofs.NumericText
import TagScript.Proofs.Numeral

/-!
# Written numbers read back

In every style a decimal is written as a numeral that is read as the same real
(`RealStyle.read?_decimal`), and so a real that is neither zero nor infinite is read as it was
written (`readReal?_write_finite`), as is an integer (`readReal?_integer`).

Behind an exponent mark, digits count only up to a limit. The shortest decimal of a real is far
below it (`leading_shortest`): it has few digits, and a decimal with few digits and a far exponent
is read as zero or as infinity.
-/

namespace TagScript

open Float.Model Float.Model.UnpackedFloat

/-! ### Exponents as written -/

theorem foldl_exponentSize {digits : List Char} {n : Nat}
    (h : Nat.ofDigitChars 10 digits n < 65536) :
    digits.foldl (fun n c => if n < 65536 then 10 * n + (c.toNat - 48) else n) n =
      Nat.ofDigitChars 10 digits n := by
  induction digits generalizing n with
  | nil => rfl
  | cons c digits ih =>
    -- digits never make the number smaller, so the limit is not reached here either
    have hn : n < 65536 := by
      rw [Nat.ofDigitChars_eq_ofDigitChars_zero] at h
      have hpow : 1 * n ≤ 10 ^ (c :: digits).length * n :=
        Nat.mul_le_mul_right n (Nat.one_le_pow _ _ (by decide))
      omega
    rw [Nat.ofDigitChars_cons] at h ⊢
    rw [List.foldl_cons, if_pos hn]
    exact ih h

theorem exponentSize_toDigits {n : Nat} (h : n < 65536) :
    exponentSize (Nat.toDigits 10 n) = n := by
  have hread : Nat.ofDigitChars 10 (Nat.toDigits 10 n) 0 = n := Nat.ofDigitChars_ten_toDigits
  rw [exponentSize, foldl_exponentSize (hread.symm ▸ h), hread]

theorem readExponent_nil : readExponent [] = some 0 :=
  rfl

/-- The mark of an exponent, its sign and its digits are read as the exponent. -/
theorem readExponent_toDigits {n : Int} {sign : List Char} (h : n.natAbs < 65536)
    (hsign : IsSign sign) (hminus : sign = ['-'] ↔ n < 0) :
    readExponent ('e' :: (sign ++ Nat.toDigits 10 n.natAbs)) = some n := by
  rw [readExponent_present (.inl rfl) hsign Nat.toDigits_ne_nil (Decimal.isDigit_toDigits _),
    exponentSize_toDigits h]
  split
  · next hmark =>
    have hneg : n < 0 := hminus.1 hmark
    congr 1
    omega
  · next hmark =>
    have hpos : ¬ n < 0 := mt hminus.2 hmark
    congr 1
    omega

/-! ### Decimals as written -/

namespace Decimal

theorem read?_positional (d : Decimal) :
    ∃ d', read? d.positional = some d' ∧ d'.toFloat = d.toFloat := by
  by_cases hexponent : 0 ≤ d.exponent
  · obtain ⟨hne, hdigits, hvalue⟩ := positional_whole hexponent
    have hread := read?_whole hne hdigits readExponent_nil
    rw [List.append_nil] at hread
    refine ⟨_, hread, toFloat_congr ?_⟩
    rw [← hvalue, ofParts, List.append_nil]
    simp [value]
  · obtain ⟨whole, fraction, hpositional, hne, hwhole, hfraction, hparts⟩ :=
      positional_point (Int.lt_of_not_ge hexponent)
    have hread := read?_point hwhole hfraction (List.append_ne_nil_of_left_ne_nil hne _)
      readExponent_nil
    rw [List.append_nil, hparts] at hread
    exact ⟨d, by rw [hpositional, hread], rfl⟩

/-- Digits with a point after the first, unless it is the only one. -/
def pointed : List Char → List Char
  | first :: second :: rest => first :: '.' :: second :: rest
  | single => single

theorem read?_pointed {w exponent : List Char} {e : Int} (hne : w ≠ []) (hw : IsDigits w)
    (he : readExponent exponent = some e) :
    read? (pointed w ++ exponent) = some ⟨Nat.ofDigitChars 10 w 0, e - (w.length - 1)⟩ := by
  match w with
  | [] => exact absurd rfl hne
  | [single] =>
    rw [pointed, read?_whole hne hw he]
    · rfl
    · simp
  | first :: second :: rest =>
    have hfirst : IsDigits [first] := by
      simpa [IsDigits] using hw first (List.mem_cons_self ..)
    have hrest : IsDigits (second :: rest) := fun c hc => hw c (List.mem_cons_of_mem _ hc)
    refine (read?_point hfirst hrest (List.cons_ne_nil _ _) he).trans ?_
    rw [ofParts]
    simp

theorem scientific_eq (d : Decimal) (plus : Bool) :
    ∃ sign, IsSign sign ∧ (sign = ['-'] ↔ d.leading < 0) ∧ d.scientific plus =
      pointed (Nat.toDigits 10 d.digits) ++ 'e' :: (sign ++ Nat.toDigits 10 d.leading.natAbs) := by
  refine ⟨if d.leading < 0 then ['-'] else if plus then ['+'] else [], ?_, ?_, ?_⟩
  · split
    · exact .inr (.inr rfl)
    · split
      · exact .inr (.inl rfl)
      · exact .inl rfl
  · split
    · next hneg => exact iff_of_true rfl hneg
    · next hpos =>
      refine iff_of_false ?_ hpos
      split <;> decide
  · exact List.append_assoc _ ('e' :: _) _

theorem read?_scientific {d : Decimal} (h : d.leading.natAbs < 65536) (plus : Bool) :
    read? (d.scientific plus) = some d := by
  obtain ⟨sign, hsign, hminus, hscientific⟩ := scientific_eq d plus
  rw [hscientific, read?_pointed Nat.toDigits_ne_nil (isDigit_toDigits _)
    (readExponent_toDigits h hsign hminus), Nat.ofDigitChars_ten_toDigits]
  have hexponent : d.leading - ((Nat.toDigits 10 d.digits).length - 1) = d.exponent := by
    rw [leading]
    ring
  rw [hexponent]

end Decimal

/-- In every style, a decimal as written is read as the same real. -/
theorem RealStyle.read?_decimal (s : RealStyle) {d : Decimal} (h : d.leading.natAbs < 65536) :
    ∃ d', Decimal.read? (s.decimal d) = some d' ∧ d'.toFloat = d.toFloat := by
  unfold RealStyle.decimal
  split
  · split
    · next hpoint =>
      rw [Bool.and_eq_true, decide_eq_true_eq] at hpoint
      obtain ⟨hne, hdigits, hvalue⟩ := Decimal.positional_whole hpoint.2
      refine ⟨_, Decimal.read?_point hdigits (Decimal.isDigit_zeros 1)
        (List.append_ne_nil_of_left_ne_nil hne _) readExponent_nil, ?_⟩
      refine Decimal.toFloat_congr ?_
      rw [← hvalue]
      exact Decimal.value_ofParts_zero _
    · exact d.read?_positional
  · exact ⟨d, Decimal.read?_scientific h s.plus, rfl⟩

/-! ### The size of the shortest decimal -/

namespace Decimal

theorem digits_trim_le (d : Decimal) : d.trim.digits ≤ d.digits := by
  fun_induction trim d with
  | case1 d h => exact Nat.zero_le _
  | case2 d h hten ih => exact le_trans ih (Nat.div_le_self _ _)
  | case3 d h hten => exact le_refl _

theorem trim_trim (d : Decimal) : d.trim.trim = d.trim :=
  trim_congr (value_trim d)

theorem ofScientific_far {n : Nat} {e : Int} (h : e < -(2 ^ 11 + n.log2) ∨ 2 ^ 11 < e) :
    UnpackedFloat.ofScientific Format.binary64 n e = .zero .positive ∨
      UnpackedFloat.ofScientific Format.binary64 n e = .infinity .positive := by
  fun_cases UnpackedFloat.ofScientific Format.binary64 n e with
  | case1 => exact .inl rfl
  | case2 => exact .inr rfl
  | case3 => exact .inl rfl
  | case4 _ hlarge hsmall => exact (h.elim hsmall hlarge).elim
  | case5 _ hlarge hsmall => exact (h.elim hsmall hlarge).elim

/-- The exponent of a decimal that is read as a finite real is bounded by its digits. -/
theorem exponent_of_toFloat {d : Decimal} {m : Nat} {e : Int} {hm : 0 < m} (htrim : d.trim = d)
    (hx : d.toFloat.toModel.unpack = .finite .positive m e hm) :
    -(2 ^ 11 + d.digits.log2 : Int) ≤ d.exponent ∧ d.exponent ≤ 2 ^ 11 := by
  by_contra hnear
  have hfar : d.exponent < -(2 ^ 11 + d.digits.log2 : Int) ∨ 2 ^ 11 < d.exponent := by
    omega
  rw [toFloat, htrim] at hx
  change (Float.Model.pack (UnpackedFloat.ofScientific _ _ _)).unpack = _ at hx
  rcases ofScientific_far hfar with hread | hread
  · rw [hread] at hx
    cases hx
  · rw [hread] at hx
    cases hx

theorem length_toDigits_le (n : Nat) : (Nat.toDigits 10 n).length ≤ n.log2 + 1 := by
  rw [Nat.length_toDigits_le_iff (by decide) (Nat.succ_pos _)]
  calc n < 2 ^ (n.log2 + 1) := Nat.lt_log2_self
    _ ≤ 10 ^ (n.log2 + 1) := Nat.pow_le_pow_left (by decide) _

/-- A number is at most the power of ten after its magnitude. -/
theorem le_magnitude (num : Nat) {den : Nat} (hden : 0 < den) :
    (num : ℚ) ≤ den * 10 ^ (magnitude num den + 1) := by
  unfold magnitude
  split
  · have hdiv : num / den < 10 ^ (Nat.toDigits 10 (num / den)).length :=
      (Nat.length_toDigits_le_iff (by decide) (List.length_pos_of_ne_nil Nat.toDigits_ne_nil)).1
        (le_refl _)
    have hlt := (Nat.div_lt_iff_lt_mul hden).1 hdiv
    rw [sub_add_cancel, zpow_natCast, mul_comm]
    exact_mod_cast hlt.le
  · next hlt =>
    rcases Nat.eq_zero_or_pos num with rfl | hnum
    · simp only [Nat.cast_zero]
      positivity
    · obtain ⟨k, hk⟩ : ∃ k, (Nat.toDigits 10 (den / num)).length = k + 1 :=
        Nat.exists_eq_succ_of_ne_zero (List.length_pos_of_ne_nil Nat.toDigits_ne_nil).ne'
      have hpow : 10 ^ k ≤ den / num := by
        have hle := ten_pow_length_le (Nat.div_pos (Nat.le_of_not_le hlt) hnum)
        rwa [hk] at hle
      have hle : ((10 ^ k * num : Nat) : ℚ) ≤ den :=
        Nat.cast_le.2 ((Nat.le_div_iff_mul_le hnum).1 hpow)
      have hexponent : -((k + 1 : Nat) : Int) + 1 = -(k : Int) := by
        push_cast
        ring
      rw [hk, hexponent, zpow_neg, zpow_natCast, ← div_eq_mul_inv, le_div_iff₀ (by positivity),
        mul_comm]
      exact_mod_cast hle

theorem digits_neighbours_le {num den k : Nat} {grid : Int} (hden : 0 < den)
    (h : (num : ℚ) ≤ den * 10 ^ (grid + k)) :
    (neighbours num den grid).1.digits ≤ 10 ^ k + 1 ∧
      (neighbours num den grid).2.1.digits ≤ 10 ^ k + 1 := by
  -- one bound for the quotient, whichever side the power of ten is on
  suffices hdiv : ∀ n d, (n, d) = (if 0 ≤ grid then (num, den * Nat.pow 10 grid.toNat)
      else (num * Nat.pow 10 (-grid).toNat, den)) → n / d ≤ 10 ^ k by
    have hle := hdiv _ _ rfl
    constructor
    · exact le_trans (digits_trim_le _) (le_trans hle (Nat.le_succ _))
    · exact le_trans (digits_trim_le _) (Nat.succ_le_succ hle)
  rw [zpow_add₀ (by norm_num), zpow_natCast] at h
  intro n d hnd
  split at hnd
  · next hgrid =>
    obtain ⟨g, rfl⟩ := Int.eq_ofNat_of_zero_le hgrid
    obtain ⟨rfl, rfl⟩ := Prod.mk.inj hnd
    refine Nat.div_le_of_le_mul ?_
    rw [zpow_natCast] at h
    rw [Int.toNat_natCast, Nat.pow_eq, mul_assoc]
    exact_mod_cast h
  · next hgrid =>
    obtain ⟨g, rfl⟩ : ∃ g : Nat, grid = -g := ⟨(-grid).toNat, by omega⟩
    obtain ⟨rfl, rfl⟩ := Prod.mk.inj hnd
    refine Nat.div_le_of_le_mul ?_
    rw [zpow_neg, zpow_natCast] at h
    rw [neg_neg, Int.toNat_natCast, Nat.pow_eq]
    have hscaled : (num : ℚ) * 10 ^ g ≤ d * 10 ^ k := by
      rw [← le_div_iff₀ (by positivity)]
      calc (num : ℚ) ≤ d * ((10 ^ g)⁻¹ * 10 ^ k) := h
        _ = d * 10 ^ k / 10 ^ g := by ring
    exact_mod_cast hscaled

theorem log2_le_of_le_mul {n m k : Nat} (hm : m < 2 ^ 53) (h : n ≤ m * 2 ^ k) :
    n.log2 ≤ 53 + k := by
  rcases Nat.eq_zero_or_pos n with rfl | hn
  · simp
  · refine ((Nat.log2_lt hn.ne').2 ?_).le
    calc n ≤ m * 2 ^ k := h
      _ < 2 ^ 53 * 2 ^ k := Nat.mul_lt_mul_of_pos_right hm (Nat.two_pow_pos k)
      _ = 2 ^ (53 + k) := (Nat.pow_add 2 53 k).symm

theorem log2_expansion_le {m : Nat} {e : Int} (h : Canonical m e) (he : e ≤ 971) :
    (expansion m e).digits.log2 ≤ 3275 := by
  have hm := h.lt_two_pow
  have hmin : -1074 ≤ e := by
    rw [canonical_iff] at h
    omega
  unfold expansion
  split
  · have hle := log2_le_of_le_mul hm (digits_trim_le ⟨m * Nat.pow 2 e.toNat, 0⟩)
    omega
  · -- the bound is rough, but the limit on exponents is far away
    have hpow : m * Nat.pow 5 (-e).toNat ≤ m * 2 ^ (3 * (-e).toNat) := by
      rw [Nat.pow_mul]
      exact Nat.mul_le_mul_left m (Nat.pow_le_pow_left (by decide) _)
    have hle := log2_le_of_le_mul hm
      (le_trans (digits_trim_le ⟨m * Nat.pow 5 (-e).toNat, e⟩) hpow)
    omega

theorem trim_onGrid {x : Float} {num den : Nat} {grid : Int} {d : Decimal}
    (h : onGrid x num den grid = some d) : d.trim = d := by
  rcases (toFloat_onGrid h).2 with rfl | rfl <;> exact trim_trim _

theorem trim_shortest (x : Float) (m : Nat) (e : Int) : (shortest x m e).trim = shortest x m e := by
  rcases shortest_cases x m e with hexpansion | ⟨num, den, n, -, -, hgrid, -⟩
  · rw [hexpansion, expansion]
    split <;> exact trim_trim _
  · exact trim_onGrid hgrid

theorem log2_shortest_le {x : Float} {m : Nat} {e : Int} (h : Canonical m e) (he : e ≤ 971) :
    (shortest x m e).digits.log2 ≤ 3275 := by
  rcases shortest_cases x m e with hexpansion | ⟨num, den, n, hn, hden, hgrid, -⟩
  · rw [hexpansion]
    exact log2_expansion_le h he
  · -- a grid `n` places below the first digit leaves `n + 1` digits, or the next power of ten
    have hbound : (num : ℚ) ≤ den * 10 ^ (magnitude num den - n + (n + 1 : Nat)) := by
      have hle := le_magnitude num hden
      rwa [← sub_add_cancel (magnitude num den) n, add_assoc] at hle
    have hdigits : (shortest x m e).digits ≤ 10 ^ (n + 1) + 1 := by
      obtain ⟨hlow, hhigh⟩ := digits_neighbours_le hden hbound
      rcases (toFloat_onGrid hgrid).2 with hd | hd
      · exact hd ▸ hlow
      · exact hd ▸ hhigh
    have hpow : 10 ^ (n + 1) ≤ 10 ^ 17 := Nat.pow_le_pow_right (by decide) hn
    have hword : (shortest x m e).digits ≤ 1 * 2 ^ 57 := by omega
    exact le_trans (log2_le_of_le_mul (by decide) hword) (by decide)

/-- The exponent of a real as written is within the limit of reading. -/
theorem leading_shortest {x : Float} {m : Nat} {e : Int} {hm : 0 < m}
    (hx : x.toModel.unpack = .finite .positive m e hm) :
    (shortest x m e).leading.natAbs < 65536 := by
  obtain ⟨hcanonical, he⟩ := canonical_of_unpack hx
  have hback : (shortest x m e).toFloat.toModel.unpack = .finite .positive m e hm := by
    rwa [toFloat_shortest hx]
  obtain ⟨hlow, hhigh⟩ := exponent_of_toFloat (trim_shortest x m e) hback
  have hlog := log2_shortest_le (x := x) hcanonical he
  have hlength := length_toDigits_le (shortest x m e).digits
  rw [leading]
  omega

end Decimal

/-! ### Reals as written -/

theorem readReal?_integer (n : Int) : readReal? (toString n).toList = some (realOfInt n) := by
  have hread (k : Nat) : Decimal.read? (Nat.toDigits 10 k) = some ⟨k, 0⟩ := by
    have h := Decimal.read?_whole Nat.toDigits_ne_nil (Decimal.isDigit_toDigits k) readExponent_nil
    rw [List.append_nil] at h
    rw [h, Decimal.ofParts, List.append_nil, Nat.ofDigitChars_ten_toDigits]
    rfl
  cases n with
  | ofNat k =>
    have htext : (toString (Int.ofNat k)).toList = [] ++ Nat.toDigits 10 k := Nat.toList_repr
    rw [htext, readReal?_append (.inl rfl) (hread k)]
    rfl
  | negSucc k =>
    have htext : (toString (Int.negSucc k)).toList = ['-'] ++ Nat.toDigits 10 (k + 1) := by
      have hrepr : toString (Int.negSucc k) = "-" ++ (k + 1).repr := rfl
      rw [hrepr, String.toList_append, Nat.toList_repr]
      rfl
    rw [htext, readReal?_append (.inr (.inr rfl)) (hread (k + 1)), if_pos rfl, realOfInt,
      if_pos (Int.negSucc_lt_zero k)]
    rfl

theorem eq_of_unpack {x y : Float} (h : x.toModel.unpack = y.toModel.unpack) : x = y := by
  have hx : Float.ofModel (Float.Model.pack x.toModel.unpack) = x := by
    rw [pack_unpack_model]
  have hy : Float.ofModel (Float.Model.pack y.toModel.unpack) = y := by
    rw [pack_unpack_model]
  rw [← hx, h, hy]

theorem isSign_signMark (sign : Sign) : IsSign (signMark sign) := by
  cases sign with
  | positive => exact .inl rfl
  | negative => exact .inr (.inr rfl)

section

variable {x : Float} {sign : Sign} {m : Nat} {e : Int} {hm : 0 < m}

theorem unpack_abs_finite (hx : x.toModel.unpack = .finite sign m e hm) :
    x.abs.toModel.unpack = .finite .positive m e hm := by
  rw [unpack_abs, hx]
  rfl

theorem readReal?_write_finite (s : RealStyle) (hx : x.toModel.unpack = .finite sign m e hm) :
    readReal? (s.write x).toList = some x := by
  have habs := unpack_abs_finite hx
  obtain ⟨d, hread, hd⟩ := s.read?_decimal (Decimal.leading_shortest habs)
  rw [Decimal.toFloat_shortest habs] at hd
  rw [s.toList_write_finite hx, readReal?_append (isSign_signMark sign) hread, hd]
  congr 1
  cases sign with
  | positive => exact eq_of_unpack (habs.trans hx.symm)
  | negative =>
    refine eq_of_unpack ?_
    rw [hx]
    show (-x.abs).toModel.unpack = _
    rw [unpack_neg, habs]
    rfl

end

end TagScript
