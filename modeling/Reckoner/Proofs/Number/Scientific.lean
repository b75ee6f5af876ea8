import Mathlib.Data.List.TakeWhile
import Reckoner.Proofs.Number.Rounding

/-!
# Digits and a power of ten

A positive decimal number has digits without zeros at either end and a power of ten that the first
of them counts, and it has them in one way only. The digits and the magnitude that a decimal number
is laid out with are these, so that they depend on nothing but its value.
-/

namespace Reckoner

/-! ## The number that digits spell -/

/-- The natural number with some digits. -/
def numberOf (ds : List Char) : ℕ := Nat.ofDigitChars 10 ds 0

@[simp] theorem numberOf_digits (n : ℕ) : numberOf (digits n) = n := Nat.ofDigitChars_ten_toDigits

theorem numberOf_append (a b : List Char) :
    numberOf (a ++ b) = numberOf a * 10 ^ b.length + numberOf b := by
  rw [numberOf, Nat.ofDigitChars_append, Nat.ofDigitChars_eq_ofDigitChars_zero, mul_comm]
  rfl

@[simp] theorem numberOf_zeros (k : ℕ) : numberOf (zeros k) = 0 := by
  rw [numberOf, zeros, Nat.ofDigitChars_replicate_zero, mul_zero]

@[simp] theorem length_zeros (k : ℕ) : (zeros k).length = k := List.length_replicate

theorem numberOf_zeros_append (k : ℕ) (ds : List Char) :
    numberOf (zeros k ++ ds) = numberOf ds := by
  rw [numberOf_append, numberOf_zeros, zero_mul, zero_add]

theorem numberOf_append_zeros (ds : List Char) (k : ℕ) :
    numberOf (ds ++ zeros k) = numberOf ds * 10 ^ k := by
  rw [numberOf_append, numberOf_zeros, length_zeros, add_zero]

theorem numberOf_singleton (c : Char) : numberOf [c] = c.toNat - '0'.toNat := by
  simp [numberOf, Nat.ofDigitChars_cons]

/-- A digit is the character of its number. -/
theorem digitChar_numberOf {c : Char} (hc : c.isDigit = true) :
    numberOf [c] < 10 ∧ (numberOf [c]).digitChar = c := by
  obtain ⟨hlow, hhigh⟩ := Char.isDigit_iff_toNat.mp hc
  have hsmall : numberOf [c] < 10 := by
    rw [numberOf_singleton]
    change c.toNat ≤ 57 at hhigh
    change 48 ≤ c.toNat at hlow
    change c.toNat - 48 < 10
    omega
  refine ⟨hsmall, Char.toNat_inj.mp ?_⟩
  rw [Nat.toNat_digitChar_of_lt_ten hsmall, numberOf_singleton]
  change 48 ≤ c.toNat at hlow
  change 48 + (c.toNat - 48) = c.toNat
  omega

/-- The digits of a positive number do not begin with a zero. -/
theorem head?_digits {n : ℕ} (hn : n ≠ 0) : (digits n).head? ≠ some '0' := by
  induction n using Nat.strongRecOn with
  | ind n ih =>
    by_cases hlt : n < 10
    · rw [digits, Nat.toDigits_of_lt_base hlt]
      exact fun hzero ↦ hn (Nat.digitChar_eq_zero.mp (Option.some.inj hzero))
    · rw [digits, Nat.toDigits_of_base_le (by decide) (Nat.le_of_not_lt hlt),
        List.head?_append_of_ne_nil _ Nat.toDigits_ne_nil]
      exact ih (n / 10) (by omega) (by omega)

/-- Digits that do not begin with a zero are the digits of their number. -/
theorem digits_numberOf {ds : List Char} (hne : ds ≠ []) (hfirst : ds.head? ≠ some '0')
    (hall : ∀ c ∈ ds, c.isDigit = true) : digits (numberOf ds) = ds ∧ 0 < numberOf ds := by
  induction ds using List.reverseRecOn with
  | nil => exact absurd rfl hne
  | append_singleton front c ih =>
    obtain ⟨hsmall, hchar⟩ := digitChar_numberOf (hall c (by simp))
    rcases List.eq_nil_or_concat front with rfl | ⟨start, last, rfl⟩
    · have hpos : numberOf [c] ≠ 0 := by
        rintro hzero
        rw [hzero] at hchar
        exact hfirst (congrArg some hchar.symm)
      rw [List.nil_append, digits, Nat.toDigits_of_lt_base hsmall, hchar]
      exact ⟨rfl, Nat.pos_of_ne_zero hpos⟩
    · have hfront : start.concat last ≠ [] := by simp
      obtain ⟨hdigits, hpos⟩ := ih hfront
        (by rwa [List.head?_append_of_ne_nil _ hfront] at hfirst)
        (fun d hd ↦ hall d (List.mem_append_left _ hd))
      have hnumber : numberOf (start.concat last ++ [c]) =
          10 * numberOf (start.concat last) + numberOf [c] := by
        rw [numberOf_append, List.length_singleton, pow_one, mul_comm]
      rw [hnumber, digits, ← Nat.toDigits_append_toDigits (by decide) hpos hsmall,
        Nat.toDigits_of_lt_base hsmall, hchar]
      exact ⟨congrArg (· ++ [c]) hdigits, by omega⟩

/-- Digits that do not end with a zero spell no multiple of ten. -/
theorem numberOf_mod_ten {ds : List Char} (hne : ds ≠ []) (hlast : ds.getLast? ≠ some '0')
    (hall : ∀ c ∈ ds, c.isDigit = true) : numberOf ds % 10 ≠ 0 := by
  obtain ⟨front, c, rfl⟩ := (List.eq_nil_or_concat ds).resolve_left hne
  rw [List.concat_eq_append] at hlast hall ⊢
  obtain ⟨hsmall, hchar⟩ := digitChar_numberOf (hall c (by simp))
  rw [numberOf_append, List.length_singleton, pow_one]
  intro hzero
  have hc : numberOf [c] = 0 := by omega
  rw [hc] at hchar
  exact hlast (by rw [List.getLast?_concat, ← hchar]; rfl)

/-! ## Scientific form -/

/-- A number is written with some digits, the first of which counts a power of ten: they begin and
end with other digits than zero. -/
structure IsScientific (value : ℚ) (ds : List Char) (magnitude : ℤ) : Prop where
  ne_nil : ds ≠ []
  isDigit : ∀ c ∈ ds, c.isDigit = true
  head_ne : ds.head? ≠ some '0'
  last_ne : ds.getLast? ≠ some '0'
  value_eq : value = numberOf ds * 10 ^ (magnitude + 1 - ds.length)

namespace IsScientific

variable {value : ℚ} {ds ds' : List Char} {magnitude magnitude' : ℤ}

/-- The number whose coefficient has the digits. -/
theorem exists_decimal (h : IsScientific value ds magnitude) :
    ∃ x : Decimal, digits x.coefficient = ds ∧ x.coefficient ≠ 0 ∧ x.magnitude = magnitude ∧
      x.exponent = magnitude + 1 - ds.length ∧ x.toRat = value := by
  obtain ⟨hdigits, hpos⟩ := digits_numberOf h.ne_nil h.head_ne h.isDigit
  refine ⟨⟨numberOf ds, magnitude + 1 - ds.length⟩, hdigits, hpos.ne', ?_, rfl, h.value_eq.symm⟩
  rw [Decimal.magnitude, hdigits, sub_add_cancel, add_sub_cancel_right]

theorem pos (h : IsScientific value ds magnitude) : 0 < value := by
  obtain ⟨x, -, hx, -, -, rfl⟩ := h.exists_decimal
  exact Decimal.toRat_pos hx

/-- The magnitude is the power of ten just below the number. -/
theorem zpow_le (h : IsScientific value ds magnitude) :
    10 ^ magnitude ≤ |value| ∧ |value| < 10 ^ (magnitude + 1) := by
  obtain ⟨x, -, hx, rfl, -, rfl⟩ := h.exists_decimal
  rw [abs_of_pos (Decimal.toRat_pos hx)]
  exact Decimal.zpow_magnitude_le hx

/-- Of two numbers of digits with one value the first is not the greater. -/
theorem le_length (h : IsScientific value ds magnitude) (h' : IsScientific value ds' magnitude) :
    ds.length ≤ ds'.length := by
  by_contra hlt
  -- Otherwise the number that more digits spell would be a multiple of ten.
  obtain ⟨k, hk⟩ := Nat.exists_eq_add_of_lt (Nat.lt_of_not_le hlt)
  have hexponent : magnitude + 1 - ds'.length = (k + 1 : ℕ) + (magnitude + 1 - ds.length) := by
    omega
  have hvalue : (numberOf ds : ℚ) * 10 ^ (magnitude + 1 - ds.length) =
      numberOf ds' * 10 ^ (k + 1) * 10 ^ (magnitude + 1 - ds.length) := by
    rw [← h.value_eq, h'.value_eq, hexponent, zpow_add₀ (by norm_num), zpow_natCast, mul_assoc]
  have hcast := mul_right_cancel₀ (ten_zpow_pos _).ne' hvalue
  have hmultiple : numberOf ds = numberOf ds' * 10 ^ (k + 1) := by exact_mod_cast hcast
  refine numberOf_mod_ten h.ne_nil h.last_ne h.isDigit ?_
  rw [hmultiple, pow_succ, ← mul_assoc]
  exact Nat.mul_mod_left _ 10

/-- A number has one magnitude and one list of digits. -/
theorem unique (h : IsScientific value ds magnitude) (h' : IsScientific value ds' magnitude') :
    ds = ds' ∧ magnitude = magnitude' := by
  obtain ⟨hlower, hupper⟩ := h.zpow_le
  obtain ⟨hlower', hupper'⟩ := h'.zpow_le
  obtain rfl : magnitude = magnitude' :=
    le_antisymm (RoundsTo.le_of_zpow_le hlower hupper') (RoundsTo.le_of_zpow_le hlower' hupper)
  have hlength : ds.length = ds'.length := le_antisymm (h.le_length h') (h'.le_length h)
  have hvalue := h.value_eq.symm.trans h'.value_eq
  rw [hlength] at hvalue
  have hcast := mul_right_cancel₀ (ten_zpow_pos _).ne' hvalue
  have hnumber : numberOf ds = numberOf ds' := by exact_mod_cast hcast
  have hdigits := (digits_numberOf h.ne_nil h.head_ne h.isDigit).1
  rw [hnumber, (digits_numberOf h'.ne_nil h'.head_ne h'.isDigit).1] at hdigits
  exact ⟨hdigits.symm, rfl⟩

end IsScientific

namespace Decimal

variable {x : Decimal}

/-- The digits of a coefficient are the significant ones and zeros. -/
theorem exists_digits_eq (x : Decimal) :
    ∃ k, digits x.coefficient = x.significant ++ zeros k := by
  have hback := congrArg List.reverse (List.takeWhile_append_dropWhile
    (p := fun c ↦ decide (c = '0')) (l := (digits x.coefficient).reverse))
  have hzeros := List.eq_replicate_of_mem fun c hc ↦ of_decide_eq_true (List.mem_takeWhile_imp
    (p := fun c ↦ decide (c = '0')) (l := (digits x.coefficient).reverse) (x := c) hc)
  rw [List.reverse_append, List.reverse_reverse] at hback
  generalize List.takeWhile _ _ = front at hback hzeros
  refine ⟨front.length, ?_⟩
  rw [← hback, significant, hzeros, zeros, List.reverse_replicate, List.length_replicate]

theorem getLast?_significant (x : Decimal) : x.significant.getLast? ≠ some '0' := by
  rw [significant, List.getLast?_reverse]
  intro hlast
  have hhead := List.head?_dropWhile_not (fun c ↦ decide (c = '0')) (digits x.coefficient).reverse
  rw [hlast] at hhead
  exact absurd hhead (by decide)

/-- The significant digits of a positive number and its magnitude are its scientific form. -/
theorem isScientific (hx : x.coefficient ≠ 0) :
    IsScientific x.toRat x.significant x.magnitude := by
  obtain ⟨k, hk⟩ := x.exists_digits_eq
  have hne := significant_ne_nil hx
  have hlength : (digits x.coefficient).length = x.significant.length + k := by
    rw [hk, List.length_append, length_zeros]
  refine ⟨hne, isDigit_of_mem_significant, ?_, x.getLast?_significant, ?_⟩
  · have hhead := head?_digits hx
    rwa [hk, List.head?_append_of_ne_nil _ hne] at hhead
  · have hnumber : x.coefficient = numberOf x.significant * 10 ^ k := by
      rw [← numberOf_append_zeros, ← hk, numberOf_digits]
    have hexponent : x.magnitude + 1 - x.significant.length = k + x.exponent := by
      rw [magnitude, hlength]
      push_cast
      ring
    rw [hexponent, zpow_add₀ (by norm_num), zpow_natCast, ← mul_assoc, toRat]
    congr 1
    exact_mod_cast hnumber

theorem length_significant_le (x : Decimal) :
    x.significant.length ≤ (digits x.coefficient).length := by
  obtain ⟨k, hk⟩ := x.exists_digits_eq
  rw [hk, List.length_append]
  exact Nat.le_add_right _ _

/-- What is rounded does not exceed the power of ten with one more digit. -/
theorem coefficient_round_le {places : ℕ} (hx : x.coefficient ≠ 0)
    (h : places ≤ (digits x.coefficient).length) : (x.round places).coefficient ≤ 10 ^ places := by
  obtain ⟨k, hk⟩ := Nat.exists_eq_add_of_le h
  have hcut : (digits x.coefficient).length - places = k := by omega
  have hpow : 0 < 10 ^ k := Nat.pow_pos (by decide)
  have hupper := (pow_length_digits hx).2
  rw [hk, pow_add] at hupper
  have hdistance := (two_mul_sub_roundedQuotient x.coefficient hpow).1
  have hclose := neg_abs_le
    ((x.coefficient : ℤ) - roundedQuotient x.coefficient (10 ^ k) * (10 ^ k : ℕ))
  have hlt : (roundedQuotient x.coefficient (10 ^ k)) * 10 ^ k < (10 ^ places + 1) * 10 ^ k := by
    zify at hupper hdistance hclose hpow ⊢
    linarith
  rw [round, hcut]
  exact Nat.lt_succ_iff.mp (Nat.lt_of_mul_lt_mul_right hlt)

/-- A rounded number has at most so many significant digits: if all of them were carried over, the
first one is a one and the others are zeros. -/
theorem length_significant_round_le {places : ℕ} (hx : x.coefficient ≠ 0) (hplaces : 0 < places) :
    (x.round places).significant.length ≤ places := by
  rcases le_total (digits x.coefficient).length places with hle | hle
  · rw [round_of_length_le hle]
    exact x.length_significant_le.trans hle
  · rcases Nat.lt_or_eq_of_le (coefficient_round_le hx hle) with hlt | heq
    · exact (x.round places).length_significant_le.trans
        ((Nat.length_toDigits_le_iff (by decide) hplaces).mpr hlt)
    · have hcarried :
          IsScientific (x.round places).toRat ['1'] (places + (x.round places).exponent) := by
        refine ⟨List.cons_ne_nil _ _, by simp, by decide, by decide, ?_⟩
        have hone : numberOf ['1'] = 1 := numberOf_digits 1
        rw [toRat, heq, hone, List.length_singleton]
        push_cast
        rw [add_sub_cancel_right, one_mul, zpow_add₀ (by norm_num), zpow_natCast]
      have hpos : (x.round places).coefficient ≠ 0 := by
        rw [heq]
        exact (Nat.pow_pos (by decide)).ne'
      rw [((isScientific hpos).unique hcarried).1]
      exact hplaces

end Decimal

end Reckoner
