import TagScript.Proofs.ValueOrder
import TagScript.Proofs.WrittenNumber

/-!
# Numbers as text

A number that is printed and read again is equal to what it was (`number_looseEq_display`): the text
of a number is a numeral or infinity (`IsNumber.display_cases`), and blanks around a text are not
part of it. Zero loses its sign in print, which no comparison sees.
-/

namespace TagScript

open Float.Model Float.Model.UnpackedFloat

/-! ### Blanks around a numeral -/

theorem Text.dropWhile_blanks {before w : List Char} (hbefore : ∀ c ∈ before, isBlank c = true)
    (hne : w ≠ []) (hw : ∀ c ∈ w.head?, isBlank c = false) :
    (before ++ w).dropWhile isBlank = w := by
  obtain ⟨c, w, rfl⟩ := List.exists_cons_of_ne_nil hne
  rw [List.dropWhile_append_of_pos hbefore, List.dropWhile_cons_of_neg (by simp [hw c rfl])]

theorem Text.trim_between {before w after : List Char} (hbefore : ∀ c ∈ before, isBlank c = true)
    (hafter : ∀ c ∈ after, isBlank c = true) (hne : w ≠ []) (hw : ∀ c ∈ w, isBlank c = false) :
    trim (before ++ (w ++ after)) = w := by
  have hhead : ∀ c ∈ (w ++ after).head?, isBlank c = false := by
    intro c hc
    rw [List.head?_append_of_ne_nil _ hne] at hc
    exact hw c (List.mem_of_mem_head? hc)
  have hlast : ∀ c ∈ w.reverse.head?, isBlank c = false := fun c hc =>
    hw c (List.mem_reverse.1 (List.mem_of_mem_head? hc))
  have hafter : ∀ c ∈ after.reverse, isBlank c = true := fun c hc =>
    hafter c (List.mem_reverse.1 hc)
  rw [trim, dropWhile_blanks hbefore (by simp [hne]) hhead, List.reverse_append,
    dropWhile_blanks hafter (by simpa using hne) hlast, List.reverse_reverse]

theorem not_blank_of_isDigit {c : Char} (h : c.isDigit = true) : Text.isBlank c = false := by
  rw [Char.isDigit, Bool.and_eq_true, decide_eq_true_eq, decide_eq_true_eq] at h
  have hlow : 48 ≤ c.toNat := h.1
  have hhigh : c.toNat ≤ 57 := h.2
  simp [Text.isBlank]
  omega

theorem IsNumeral.not_blank {w : List Char} (h : IsNumeral w) :
    ∀ c ∈ w, Text.isBlank c = false := by
  intro c hc
  rcases h.chars c hc with hdigit | hsign
  · exact not_blank_of_isDigit hdigit
  · simp only [List.mem_cons, List.not_mem_nil, or_false] at hsign
    rcases hsign with rfl | rfl | rfl | rfl | rfl <;> rfl

/-! ### Reading -/

theorem numberOfText_of_readReal? {t : String} {x : Float}
    (h : readReal? (Text.trim t.toList) = some x) : numberOfText t = x := by
  have hnumeral : IsNumeral (Text.trim t.toList) :=
    readReal?_isSome_iff.1 (Option.isSome_of_eq_some h)
  have hne : Text.trim t.toList ≠ [] := by
    intro hempty
    rw [hempty] at h
    cases h
  have hbased : ∀ mark base digits, (mark, base) ∈ baseMarks →
      Text.trim t.toList ≠ '0' :: mark :: digits := by
    intro mark base digits hmark ht
    exact not_isNumeral_based hmark (ht ▸ hnumeral)
  have hinfinity : (splitSign (Text.trim t.toList)).2 ≠ "Infinity".toList := by
    intro hinfinity
    rw [readReal?_eq, hinfinity] at h
    cases h
  rw [numberOfText_unbased hne hbased, if_neg hinfinity, h]
  rfl

theorem unpack_infinity : infinity.toModel.unpack = .infinity .positive :=
  rfl

theorem numberOfText_infinity {t : String} {sign : Sign}
    (h : Text.trim t.toList = signMark sign ++ "Infinity".toList) :
    (numberOfText t).toModel.unpack = .infinity sign := by
  cases sign with
  | positive =>
    have hnumber : numberOfText t = infinity := by
      rw [numberOfText, h]
      rfl
    rw [hnumber, unpack_infinity]
  | negative =>
    have hnumber : numberOfText t = -infinity := by
      rw [numberOfText, h]
      rfl
    rw [hnumber, unpack_neg, unpack_infinity]
    rfl

namespace Value

/-! ### Printing -/

theorem beq_of_position {x y : Float} (hx : x.isNaN = false) (hy : y.isNaN = false)
    (h : position x.toModel.unpack = position y.toModel.unpack) : (x == y) = true := by
  rw [beq_iff_relateReals, relateReals_eq hx hy, h, Std.compare_self]

theorem display_zero {x : Float} {sign : Sign} (hx : x.toModel.unpack = .zero sign) :
    (real x).display = toString (0 : Int) := by
  rw [display, RealStyle.write, hx]
  rfl

theorem toList_display_infinity {x : Float} {sign : Sign} (hx : x.toModel.unpack = .infinity sign) :
    (real x).display.toList = signMark sign ++ "Infinity".toList := by
  have hname : scriptReal.infinity = "Infinity" := rfl
  rw [display, RealStyle.write, hx, hname]
  cases sign <;> simp [signMark]

theorem not_blank_infinity (sign : Sign) :
    ∀ c ∈ signMark sign ++ "Infinity".toList, Text.isBlank c = false := by
  have hall : (signMark sign ++ "Infinity".toList).all (fun c => !Text.isBlank c) = true := by
    cases sign <;> rfl
  intro c hc
  have hc := List.all_eq_true.1 hall c hc
  rwa [Bool.not_eq_true'] at hc

/-- The text of a number is a numeral that stands for it, or infinity. -/
theorem IsNumber.display_cases {v : Value} (hv : v.IsNumber) :
    (∃ y, readReal? v.display.toList = some y ∧ position y.toModel.unpack = v.place) ∨
      ∃ sign, v.display.toList = signMark sign ++ "Infinity".toList ∧
        v.place = position (.infinity sign) := by
  cases v with
  | integer n => exact .inl ⟨_, readReal?_integer n.toInt, rfl⟩
  | real x =>
    cases hx : x.toModel.unpack with
    | notANumber =>
      rw [IsNumber, isNaN_of_unpack hx] at hv
      cases hv
    | infinity sign =>
      refine .inr ⟨sign, toList_display_infinity hx, ?_⟩
      rw [place, number, hx]
    | zero sign =>
      -- both zeros are printed as the integer is, and stand where it stands
      refine .inl ⟨_, display_zero hx ▸ readReal?_integer 0, ?_⟩
      rw [place, number, hx]
      exact position_toFloat_zero
    | finite sign m e hm => exact .inl ⟨x, readReal?_write_finite scriptReal hx, rfl⟩
  | _ => exact hv.elim

section

variable {v : Value} {before after : String}

/-- Printed with blanks around it, a number is read as an equal one. -/
theorem IsNumber.number_beq_display (hv : v.IsNumber)
    (hbefore : ∀ c ∈ before.toList, Text.isBlank c = true)
    (hafter : ∀ c ∈ after.toList, Text.isBlank c = true) :
    (v.number == numberOfText (before ++ v.display ++ after)) = true := by
  have htext : (before ++ v.display ++ after).toList =
      before.toList ++ (v.display.toList ++ after.toList) := by
    simp
  rcases hv.display_cases with ⟨y, hread, hplace⟩ | ⟨sign, hdisplay, hplace⟩
  · have hnumeral : IsNumeral v.display.toList :=
      readReal?_isSome_iff.1 (Option.isSome_of_eq_some hread)
    have hne : v.display.toList ≠ [] := by
      intro hempty
      rw [hempty] at hread
      cases hread
    have htrim := Text.trim_between hbefore hafter hne hnumeral.not_blank
    rw [← htext] at htrim
    rw [numberOfText_of_readReal? (htrim.symm ▸ hread)]
    exact beq_of_position hv.isNaN_number (isNaN_of_readReal? hread) hplace.symm
  · have hblank : ∀ c ∈ v.display.toList, Text.isBlank c = false :=
      hdisplay ▸ not_blank_infinity sign
    have htrim := Text.trim_between hbefore hafter (by simp [hdisplay]) hblank
    rw [← htext, hdisplay] at htrim
    have hinfinity := numberOfText_infinity htrim
    refine beq_of_position hv.isNaN_number (isNaN_of_unpack hinfinity) ?_
    rw [hinfinity]
    exact hplace

theorem IsNumber.looseEq_text (hv : v.IsNumber) (t : String) :
    v.looseEq (text t) = (v.number == numberOfText t) := by
  cases v with
  | integer _ | real _ => rfl
  | _ => exact hv.elim

theorem IsNumber.looseEq_display (hv : v.IsNumber)
    (hbefore : ∀ c ∈ before.toList, Text.isBlank c = true)
    (hafter : ∀ c ∈ after.toList, Text.isBlank c = true) :
    v.looseEq (text (before ++ v.display ++ after)) = true := by
  rw [hv.looseEq_text]
  exact hv.number_beq_display hbefore hafter

/-- A number equals its own text, whatever blanks stand around it. -/
theorem number_looseEq_display (hv : v.IsNumber)
    (hbefore : ∀ c ∈ before.toList, Text.isBlank c = true)
    (hafter : ∀ c ∈ after.toList, Text.isBlank c = true) :
    v.looseEq (text (before ++ v.display ++ after)) = true ∧
      (text (before ++ v.display ++ after)).looseEq v = true ∧
        (binary .plus (text "") v).bind (binary .equal v) = some (bool true) := by
  refine ⟨hv.looseEq_display hbefore hafter, ?_, ?_⟩
  · rw [looseEq_comm]
    exact hv.looseEq_display hbefore hafter
  · have hbare : v.looseEq (text ("" ++ v.display ++ "")) = true :=
      hv.looseEq_display (by simp) (by simp)
    have hsum : binary .plus (text "") v = some (text ("" ++ v.display ++ "")) := by
      simp [binary, arithmetic, isText, display]
    rw [hsum]
    exact congrArg (fun b => some (bool b)) hbare

end

theorem number_looseEq_display_padded :
    (integer 9007199254740993).looseEq (text "\t9007199254740993 \n") = true ∧
      (text "\t9007199254740993 \n").looseEq (integer 9007199254740993) = true ∧
        (binary .plus (text "") (integer 9007199254740993)).bind
          (binary .equal (integer 9007199254740993)) = some (bool true) :=
  @number_looseEq_display (integer 9007199254740993) "\t" " \n" trivial
    (List.all_eq_true.1 rfl) (List.all_eq_true.1 rfl)

end Value

end TagScript
