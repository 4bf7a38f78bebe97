import TagScript.Proofs.Shortest
import TagScript.Proofs.TokenPattern

/-!
# Numbers and floats as written

The numbers and floats of a source text, written by `Token.render`, are spelled as their patterns
ask (`pattern_number_render`, `pattern_float_render`), and so are read again as they were. The one
real that has no numeral is infinity: a numeral too large for a real stands for it, and it is written
as a word.
-/

namespace TagScript

open Float.Model Float.Model.UnpackedFloat

/-! ### Positional notation -/

namespace Decimal

theorem isDigit_toDigits (n : Nat) : ∀ c ∈ Nat.toDigits 10 n, c.isDigit = true :=
  fun _ hc => Nat.isDigit_of_mem_toDigits (by decide) (by decide) hc

theorem isDigit_zeros (k : Nat) : ∀ c ∈ List.replicate k '0', c.isDigit = true := by
  intro c hc
  rw [List.eq_of_mem_replicate hc]
  rfl

theorem positional_whole {d : Decimal} (h : 0 ≤ d.exponent) :
    d.positional ≠ [] ∧ (∀ c ∈ d.positional, c.isDigit = true) ∧
      ((Nat.ofDigitChars 10 d.positional 0 : Nat) : ℚ) = d.value := by
  obtain ⟨k, hk⟩ : ∃ k : Nat, d.exponent = k := ⟨d.exponent.toNat, by omega⟩
  have hpositional : d.positional = Nat.toDigits 10 d.digits ++ List.replicate k '0' := by
    rw [positional, if_pos h, hk, Int.toNat_natCast]
  rw [hpositional]
  refine ⟨List.append_ne_nil_of_left_ne_nil Nat.toDigits_ne_nil _, ?_, ?_⟩
  · exact List.forall_mem_append.2 ⟨isDigit_toDigits _, isDigit_zeros k⟩
  · rw [Nat.ofDigitChars_append, Nat.ofDigitChars_ten_toDigits, Nat.ofDigitChars_replicate_zero,
      value, hk, zpow_natCast]
    push_cast
    ring

theorem positional_point {d : Decimal} (h : d.exponent < 0) :
    ∃ whole fraction, d.positional = whole ++ '.' :: fraction ∧ whole ≠ [] ∧
      (∀ c ∈ whole, c.isDigit = true) ∧ (∀ c ∈ fraction, c.isDigit = true) ∧
        ofParts whole fraction 0 = d := by
  obtain ⟨k, hk⟩ : ∃ k : Nat, d.exponent = -k := ⟨d.exponent.natAbs, by omega⟩
  obtain ⟨padded, hpadded⟩ : ∃ padded, padded =
      List.replicate (k + 1 - (Nat.toDigits 10 d.digits).length) '0' ++ Nat.toDigits 10 d.digits :=
    ⟨_, rfl⟩
  have hlength : k < padded.length := by
    rw [hpadded, List.length_append, List.length_replicate]
    omega
  have hdigits : ∀ c ∈ padded, c.isDigit = true := by
    rw [hpadded]
    exact List.forall_mem_append.2 ⟨isDigit_zeros _, isDigit_toDigits _⟩
  have hpositional : d.positional =
      padded.take (padded.length - k) ++ '.' :: padded.drop (padded.length - k) := by
    rw [positional, if_neg (by omega), hk, Int.natAbs_neg, Int.natAbs_natCast, hpadded]
  refine ⟨_, _, hpositional, ?_, fun c hc => hdigits c (List.mem_of_mem_take hc),
    fun c hc => hdigits c (List.mem_of_mem_drop hc), ?_⟩
  · rw [ne_eq, List.take_eq_nil_iff, not_or]
    exact ⟨by omega, List.ne_nil_of_length_pos (by omega)⟩
  · have hread : Nat.ofDigitChars 10 padded 0 = d.digits := by
      rw [hpadded, Nat.ofDigitChars_append, Nat.ofDigitChars_replicate_zero, Nat.mul_zero,
        Nat.ofDigitChars_ten_toDigits]
    have hplaces : (padded.drop (padded.length - k)).length = k := by
      rw [List.length_drop]
      omega
    rw [ofParts, List.take_append_drop, hread, hplaces, zero_sub, ← hk]

end Decimal

/-! ### Reals as written -/

/-- The sign before a real as written. -/
def signMark : Sign → List Char
  | .negative => ['-']
  | .positive => []

theorem RealStyle.toList_write_finite (s : RealStyle) {x : Float} {sign : Sign} {m : Nat} {e : Int}
    {hm : 0 < m} (hx : x.toModel.unpack = .finite sign m e hm) :
    (s.write x).toList = signMark sign ++ s.decimal (Decimal.shortest x.abs m e) := by
  rw [RealStyle.write, hx]
  cases sign <;> simp [signMark]

theorem write_finite {x : Float} {m : Nat} {e : Int} {hm : 0 < m}
    (hx : x.toModel.unpack = .finite .positive m e hm) :
    (sourceReal.write x).toList = (Decimal.shortest x m e).positional := by
  have habs : x.abs = x := by
    show Float.ofModel (Float.Model.pack x.toModel.unpack.abs) = x
    rw [hx, UnpackedFloat.abs, ← hx, pack_unpack_model]
  rw [sourceReal.toList_write_finite hx, habs]
  rfl

theorem write_zero {x : Float} (hx : x.toModel.unpack = .zero .positive) :
    sourceReal.write x = "0" := by
  rw [RealStyle.write, hx]
  rfl

theorem write_infinity {x : Float} (hx : Unsigned x.toModel.unpack) (hinf : x.isInf = true) :
    sourceReal.write x = "inf" := by
  cases hunpack : x.toModel.unpack with
  | infinity sign =>
    rw [hunpack] at hx
    obtain rfl : sign = .positive := hx
    rw [RealStyle.write, hunpack]
    rfl
  | _ =>
    rw [Float.isInf, Float.Model.isInf, hunpack] at hinf
    cases hinf

theorem isInf_of_unpack {x : Float} {f : UnpackedFloat} (hx : x.toModel.unpack = f) :
    x.isInf = f.isInf := by
  rw [← hx]
  rfl

/-- The token carries an infinite real. -/
def Token.isInfinite : Token → Bool
  | .number (.real x) | .float x => x.isInf
  | _ => false

/-! ### Numbers -/

theorem wordOf?_natCast (n : Nat) :
    wordOf? n = if n < 2 ^ 63 then some (Int64.ofInt n) else none := by
  have hmin : Int64.minValue.toInt = -2 ^ 63 := rfl
  have hmax : Int64.maxValue.toInt = 2 ^ 63 - 1 := rfl
  rw [wordOf?, hmin, hmax]
  congr 1
  simp only [eq_iff_iff]
  omega

theorem ofDigits_of_lt {w : List Char} (h : Nat.ofDigitChars 10 w 0 < 2 ^ 63) :
    Number.ofDigits w = .integer (Int64.ofInt (Nat.ofDigitChars 10 w 0)) := by
  rw [Number.ofDigits, wordOf?_natCast, if_pos h]

theorem ofDigits_of_le {w : List Char} (h : 2 ^ 63 ≤ Nat.ofDigitChars 10 w 0) :
    Number.ofDigits w = .real (Decimal.toFloat ⟨Nat.ofDigitChars 10 w 0, 0⟩) := by
  rw [Number.ofDigits, wordOf?_natCast, if_neg (by omega)]
  rfl

theorem render_integer {n : Nat} (h : n < 2 ^ 63) :
    (Number.integer (Int64.ofInt n)).render.toList = Nat.toDigits 10 n := by
  have hword : (Int64.ofInt n).toInt = n := Int64.toInt_ofInt_of_le (by omega) (by omega)
  rw [Number.render, hword]
  exact Nat.toList_repr

theorem pattern_integer {n : Nat} (h : n < 2 ^ 63) :
    (Token.number (.integer (Int64.ofInt n))).Pattern (Nat.toDigits 10 n) := by
  have hpattern := Token.Pattern.number (w := Nat.toDigits 10 n) Nat.toDigits_ne_nil
    (Decimal.isDigit_toDigits n)
  rwa [ofDigits_of_lt (by rwa [Nat.ofDigitChars_ten_toDigits]), Nat.ofDigitChars_ten_toDigits]
    at hpattern

/-- A real beyond the words is written as a whole number beyond them. -/
theorem pattern_real {n : Nat} (h : 2 ^ 63 ≤ n) (hfinite : (Decimal.toFloat ⟨n, 0⟩).isInf = false) :
    (Token.number (.real (Decimal.toFloat ⟨n, 0⟩))).Pattern
      (Number.real (Decimal.toFloat ⟨n, 0⟩)).render.toList := by
  rcases Decimal.toFloat_large h with hx | ⟨m, e, hm, hx, hlarge, he⟩
  · rw [isInf_of_unpack hx] at hfinite
    cases hfinite
  generalize Decimal.toFloat ⟨n, 0⟩ = x at hx
  obtain ⟨hexponent, hvalue⟩ := Decimal.shortest_large hx hlarge he
  obtain ⟨hne, hdigits, hread⟩ := Decimal.positional_whole hexponent
  rw [Number.render, write_finite hx]
  have hbeyond : 2 ^ 63 ≤ Nat.ofDigitChars 10 (Decimal.shortest x m e).positional 0 := by
    rw [← hread] at hvalue
    exact_mod_cast hvalue
  have hback :
      Decimal.toFloat ⟨Nat.ofDigitChars 10 (Decimal.shortest x m e).positional 0, 0⟩ = x := by
    refine (Decimal.toFloat_congr ?_).trans (Decimal.toFloat_shortest hx)
    rw [← hread, Decimal.value, zpow_zero, mul_one]
  have hpattern := Token.Pattern.number hne hdigits
  rwa [ofDigits_of_le hbeyond, hback] at hpattern

theorem pattern_number_render (w : List Char)
    (hfinite : (Token.number (.ofDigits w)).isInfinite = false) :
    (Token.number (.ofDigits w)).Pattern (Token.number (.ofDigits w)).render.toList := by
  by_cases hlt : Nat.ofDigitChars 10 w 0 < 2 ^ 63
  · rw [ofDigits_of_lt hlt, Token.render, render_integer hlt]
    exact pattern_integer hlt
  · have hle := Nat.le_of_not_lt hlt
    rw [ofDigits_of_le hle] at hfinite ⊢
    exact pattern_real hle hfinite

/-! ### Floats -/

theorem Decimal.toFloat_zero :
    (Decimal.ofParts ['0'] ['0'] 0).toFloat = .ofModel (Float.Model.pack (.zero .positive)) := by
  have hparts : Decimal.ofParts ['0'] ['0'] 0 = ⟨0, -1⟩ := rfl
  rw [hparts, Decimal.toFloat, Decimal.trim_zero]
  rfl

/-- A zero after the point changes nothing. -/
theorem Decimal.value_ofParts_zero (w : List Char) :
    (Decimal.ofParts w ['0'] 0).value = (Nat.ofDigitChars 10 w 0 : Nat) := by
  have hread : Nat.ofDigitChars 10 (w ++ ['0']) 0 = 10 * Nat.ofDigitChars 10 w 0 := by
    rw [Nat.ofDigitChars_append]
    rfl
  rw [Decimal.ofParts, hread, Decimal.value, List.length_singleton]
  push_cast
  rw [zpow_neg_one]
  ring

theorem render_float_point {x : Float} {whole fraction : List Char}
    (hx : (sourceReal.write x).toList = whole ++ '.' :: fraction) :
    (Token.float x).render.toList = whole ++ '.' :: fraction := by
  rw [Token.render, if_pos (by rw [hx]; simp), hx]

theorem render_float_whole {x : Float} {w : List Char} (hx : (sourceReal.write x).toList = w)
    (hw : ∀ c ∈ w, c.isDigit = true) : (Token.float x).render.toList = w ++ ['.', '0'] := by
  have hpoint : ¬ (sourceReal.write x).toList.contains '.' = true := by
    rw [hx, List.contains_iff_mem]
    intro hmem
    cases hw '.' hmem
  rw [Token.render, if_neg hpoint, String.toList_append, hx]
  rfl

theorem pattern_float {x : Float} {whole fraction : List Char} (hne : whole ≠ [])
    (hwhole : ∀ c ∈ whole, c.isDigit = true) (hfraction : ∀ c ∈ fraction, c.isDigit = true)
    (hread : (Decimal.ofParts whole fraction 0).toFloat = x) :
    (Token.float x).Pattern (whole ++ '.' :: fraction) :=
  hread ▸ .float hne hwhole hfraction

theorem pattern_float_finite {x : Float} {m : Nat} {e : Int} {hm : 0 < m}
    (hx : x.toModel.unpack = .finite .positive m e hm) :
    (Token.float x).Pattern (Token.float x).render.toList := by
  have hwrite := write_finite hx
  by_cases hexponent : 0 ≤ (Decimal.shortest x m e).exponent
  · obtain ⟨hne, hdigits, hread⟩ := Decimal.positional_whole hexponent
    rw [render_float_whole hwrite hdigits]
    refine pattern_float hne hdigits (Decimal.isDigit_zeros 1) ?_
    refine (Decimal.toFloat_congr ?_).trans (Decimal.toFloat_shortest hx)
    rw [← hread, Decimal.value_ofParts_zero]
  · obtain ⟨whole, fraction, hpositional, hne, hwhole, hfraction, hparts⟩ :=
      Decimal.positional_point (Int.lt_of_not_ge hexponent)
    rw [hpositional] at hwrite
    rw [render_float_point hwrite]
    refine pattern_float hne hwhole hfraction ?_
    rw [hparts, Decimal.toFloat_shortest hx]

theorem pattern_float_zero {x : Float} (hx : x.toModel.unpack = .zero .positive) :
    (Token.float x).Pattern (Token.float x).render.toList := by
  have hzero : ∀ c ∈ ['0'], c.isDigit = true := Decimal.isDigit_zeros 1
  have hwrite : (sourceReal.write x).toList = ['0'] := by
    rw [write_zero hx]
    rfl
  rw [render_float_whole hwrite hzero]
  refine pattern_float (List.cons_ne_nil _ _) hzero hzero ?_
  rw [Decimal.toFloat_zero, ← hx, pack_unpack_model]

theorem pattern_float_render (d : Decimal) (hfinite : d.toFloat.isInf = false) :
    (Token.float d.toFloat).Pattern (Token.float d.toFloat).render.toList := by
  have hunsigned := d.unsigned_toFloat
  cases hx : d.toFloat.toModel.unpack with
  | notANumber =>
    rw [hx] at hunsigned
    exact hunsigned.elim
  | infinity sign =>
    rw [isInf_of_unpack hx] at hfinite
    cases hfinite
  | zero sign =>
    rw [hx] at hunsigned
    obtain rfl : sign = .positive := hunsigned
    exact pattern_float_zero hx
  | finite sign m e hm =>
    rw [hx] at hunsigned
    obtain rfl : sign = .positive := hunsigned
    exact pattern_float_finite hx

end TagScript
