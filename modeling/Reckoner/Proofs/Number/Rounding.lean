import Mathlib.Algebra.Order.Field.Power
import Mathlib.Data.Rat.Cast.Order
import Mathlib.Tactic.Linarith
import Mathlib.Tactic.Positivity
import Mathlib.Tactic.Ring
import Reckoner.Proofs.Number.Whole

/-!
# Rounding to significant digits

To round a number to some significant digits is to take the nearest number that has no more of them
from its first digit on, and of two that are equally near the one whose last digit is even. What
the first digit of a number counts says how fine the grid of those numbers is. On it there is one
nearest number, so rounding is a function, and the rounding of exact decimal numbers is this
function.
-/

namespace Reckoner

/-! ## The nearest multiple of a unit -/

/-- A multiple of a unit is the nearest to a value, and the even one if another is as near. -/
structure IsNearest (unit value : ℚ) (n : ℤ) : Prop where
  le : ∀ k : ℤ, |value - n * unit| ≤ |value - k * unit|
  even : ∀ k : ℤ, |value - n * unit| = |value - k * unit| → k = n ∨ Even n

namespace IsNearest

variable {unit value : ℚ} {n k : ℤ}

/-- What is on the grid itself is its own nearest multiple. -/
theorem refl (hunit : 0 < unit) (n : ℤ) : IsNearest unit (n * unit) n where
  le k := by
    rw [sub_self, abs_zero]
    exact abs_nonneg _
  even k h := by
    rw [sub_self, abs_zero, eq_comm, abs_eq_zero, ← sub_mul, mul_eq_zero] at h
    left
    have hzero : (n : ℚ) - k = 0 := h.resolve_right hunit.ne'
    exact_mod_cast (sub_eq_zero.mp hzero).symm

/-- A multiple is nearest if it is not farther than half a unit, and even if it is just as far. -/
theorem of_two_mul_le (hunit : 0 < unit) (hle : 2 * |value - n * unit| ≤ unit)
    (heven : 2 * |value - n * unit| = unit → Even n) : IsNearest unit value n := by
  have hother (k : ℤ) (hk : k ≠ n) : unit - |value - n * unit| ≤ |value - k * unit| := by
    have hone : (1 : ℚ) ≤ |(k : ℚ) - n| := by
      exact_mod_cast Int.one_le_abs (sub_ne_zero.mpr hk)
    have hunits : unit ≤ |(k : ℚ) - n| * unit := le_mul_of_one_le_left hunit.le hone
    have hsplit : ((k : ℚ) - n) * unit = (value - n * unit) - (value - k * unit) := by ring
    have htriangle := abs_sub (value - n * unit) (value - k * unit)
    rw [← hsplit, abs_mul, abs_of_pos hunit] at htriangle
    linarith
  constructor
  · intro k
    rcases eq_or_ne k n with rfl | hk
    · exact le_rfl
    · linarith [hother k hk]
  · intro k h
    rcases eq_or_ne k n with rfl | hk
    · exact .inl rfl
    · exact .inr (heven (le_antisymm hle (by linarith [hother k hk])))

/-- There is only one nearest multiple: between two even ones there is a third. -/
theorem unique (hunit : 0 < unit) (h : IsNearest unit value n) (h' : IsNearest unit value k) :
    n = k := by
  by_contra hne
  have heq : |value - n * unit| = |value - k * unit| := le_antisymm (h.le k) (h'.le n)
  obtain ⟨a, rfl⟩ := (h.even k heq).resolve_left (Ne.symm hne)
  obtain ⟨b, rfl⟩ := (h'.even _ heq.symm).resolve_left hne
  rcases abs_eq_abs.mp heq with hsame | hopposite
  · have hmul : ((a + a : ℤ) : ℚ) * unit = (b + b : ℤ) * unit := sub_right_injective hsame
    exact hne (by exact_mod_cast mul_right_cancel₀ hunit.ne' hmul)
  · have hbetween : value = (a + b : ℤ) * unit := by
      push_cast at hopposite ⊢
      linarith
    have hnear := h.le (a + b)
    rw [← hbetween, sub_self, abs_zero, abs_nonpos_iff, sub_eq_zero, hbetween] at hnear
    have hmul := mul_right_cancel₀ hunit.ne' hnear
    have hsum : a + b = a + a := by exact_mod_cast hmul
    exact hne (by omega)

theorem neg (h : IsNearest unit value n) : IsNearest unit (-value) (-n) := by
  have habs (k : ℤ) : |-value - k * unit| = |value - (-k : ℤ) * unit| := by
    rw [← abs_neg]
    congr 1
    push_cast
    ring
  constructor
  · intro k
    rw [habs, habs, neg_neg]
    exact h.le (-k)
  · intro k heq
    rw [habs, habs, neg_neg] at heq
    exact (h.even (-k) heq).imp (fun hk ↦ by omega) Even.neg

end IsNearest

/-! ## Significant digits -/

theorem ten_zpow_pos (e : ℤ) : (0 : ℚ) < 10 ^ e := zpow_pos (by norm_num) e

/-- A number comes to another one when it is rounded to so many significant digits. -/
inductive RoundsTo (places : ℕ) : ℚ → ℚ → Prop
  | zero : RoundsTo places 0 0
  /-- The first digit counts a power of ten, and the last one that is kept the unit. -/
  | nearest {value : ℚ} (e n : ℤ) (hlower : 10 ^ e ≤ |value|) (hupper : |value| < 10 ^ (e + 1))
      (hnearest : IsNearest (10 ^ (e + 1 - places)) value n) :
      RoundsTo places value (n * 10 ^ (e + 1 - places))

namespace RoundsTo

variable {places : ℕ} {value rounded rounded' : ℚ}

/-- The first digits of a number count one power of ten only. -/
theorem le_of_zpow_le {e e' : ℤ} (hlower : (10 : ℚ) ^ e ≤ |value|)
    (hupper : |value| < 10 ^ (e' + 1)) : e ≤ e' := by
  have hlt : (10 : ℚ) ^ e < 10 ^ (e' + 1) := lt_of_le_of_lt hlower hupper
  have := (zpow_lt_zpow_iff_right₀ (by norm_num : (1 : ℚ) < 10)).mp hlt
  omega

theorem not_zpow_le_zero (e : ℤ) : ¬(10 : ℚ) ^ e ≤ |0| := by
  rw [abs_zero, not_le]
  exact ten_zpow_pos e

/-- A number is rounded to one number only. -/
theorem unique (h : RoundsTo places value rounded) (h' : RoundsTo places value rounded') :
    rounded = rounded' := by
  cases h with
  | zero =>
    cases h' with
    | zero => rfl
    | nearest e n hlower => exact (not_zpow_le_zero e hlower).elim
  | nearest e n hlower hupper hnearest =>
    cases h' with
    | zero => exact (not_zpow_le_zero e hlower).elim
    | nearest e' n' hlower' hupper' hnearest' =>
      obtain rfl : e = e' :=
        le_antisymm (le_of_zpow_le hlower hupper') (le_of_zpow_le hlower' hupper)
      rw [hnearest.unique (ten_zpow_pos _) hnearest']

theorem neg (h : RoundsTo places value rounded) : RoundsTo places (-value) (-rounded) := by
  cases h with
  | zero =>
    rw [neg_zero]
    exact .zero
  | nearest e n hlower hupper hnearest =>
    have hneg : -((n : ℚ) * 10 ^ (e + 1 - places)) = ((-n : ℤ) : ℚ) * 10 ^ (e + 1 - places) := by
      push_cast
      ring
    rw [hneg]
    rw [← abs_neg] at hlower hupper
    exact .nearest e (-n) hlower hupper hnearest.neg

end RoundsTo

/-! ## Decimal numbers -/

/-- The value of a decimal number. -/
def Decimal.toRat (x : Decimal) : ℚ := x.coefficient * 10 ^ x.exponent

/-- A positive number has the powers of ten around it that the count of its digits says. -/
theorem pow_length_digits {n : ℕ} (hn : n ≠ 0) :
    10 ^ ((digits n).length - 1) ≤ n ∧ n < 10 ^ (digits n).length := by
  have hpos : 0 < (digits n).length := Nat.length_toDigits_pos
  constructor
  · by_contra hlt
    rcases Nat.eq_zero_or_pos ((digits n).length - 1) with hzero | hpred
    · rw [hzero, pow_zero] at hlt
      omega
    · have hle := (Nat.length_toDigits_le_iff (by decide) hpred).mpr (Nat.lt_of_not_le hlt)
      change (digits n).length ≤ (digits n).length - 1 at hle
      omega
  · exact (Nat.length_toDigits_le_iff (by decide) hpos).mp le_rfl

/-- A quotient is rounded by at most half a unit, and to an even number if by just as much. -/
theorem two_mul_sub_roundedQuotient (n : ℕ) {d : ℕ} (hd : 0 < d) :
    2 * |(n : ℤ) - roundedQuotient n d * d| ≤ d ∧
      (2 * |(n : ℤ) - roundedQuotient n d * d| = d → Even (roundedQuotient n d)) := by
  have hmod := Nat.mod_lt n hd
  have hdiv : (n : ℤ) = (n / d : ℕ) * d + (n % d : ℕ) := by
    exact_mod_cast (Nat.div_add_mod' n d).symm
  have hlow : (n : ℤ) - (n / d : ℕ) * d = (n % d : ℕ) := by linarith
  have hhigh : (n : ℤ) - (n / d + 1 : ℕ) * d = (n % d : ℕ) - d := by
    rw [Nat.cast_succ, add_mul, one_mul]
    linarith
  rw [roundedQuotient]
  split
  · rename_i hcompare
    rw [Nat.compare_eq_lt] at hcompare
    rw [hlow, Nat.abs_cast]
    omega
  · rename_i hcompare
    rw [Nat.compare_eq_gt] at hcompare
    rw [hhigh, abs_of_neg (by omega)]
    omega
  · rename_i hcompare
    rw [Nat.compare_eq_eq] at hcompare
    split
    · rename_i heven
      rw [hlow, Nat.abs_cast]
      exact ⟨by omega, fun _ ↦ Nat.even_iff.mpr heven⟩
    · rename_i hodd
      rw [hhigh, abs_of_neg (by omega)]
      exact ⟨by omega, fun _ ↦ Nat.even_iff.mpr (by omega)⟩

/-- A quotient is not rounded below its whole part. -/
theorem div_le_roundedQuotient (n d : ℕ) : n / d ≤ roundedQuotient n d := by
  rw [roundedQuotient]
  split
  · exact le_rfl
  · exact Nat.le_succ _
  · split
    · exact le_rfl
    · exact Nat.le_succ _

/-- A quotient without a remainder is not changed. -/
theorem roundedQuotient_mul (n : ℕ) {d : ℕ} (hd : 0 < d) : roundedQuotient (n * d) d = n := by
  have hless : compare 0 d = .lt := Nat.compare_eq_lt.mpr hd
  rw [roundedQuotient, Nat.mul_mod_left, mul_zero, Nat.mul_div_cancel n hd, hless]

namespace Decimal

variable {x : Decimal}

theorem toRat_pos (hx : x.coefficient ≠ 0) : 0 < x.toRat :=
  mul_pos (by exact_mod_cast Nat.pos_of_ne_zero hx) (ten_zpow_pos x.exponent)

/-- The first digit of a positive number counts the power of ten that its magnitude says. -/
theorem zpow_magnitude_le (hx : x.coefficient ≠ 0) :
    10 ^ x.magnitude ≤ x.toRat ∧ x.toRat < 10 ^ (x.magnitude + 1) := by
  obtain ⟨hlower, hupper⟩ := pow_length_digits hx
  have hlength : 0 < (digits x.coefficient).length := Nat.length_toDigits_pos
  have hpos := ten_zpow_pos x.exponent
  have hfirst : x.magnitude = ((digits x.coefficient).length - 1 : ℕ) + x.exponent := by
    rw [magnitude]
    omega
  have hnext : x.magnitude + 1 = ((digits x.coefficient).length : ℕ) + x.exponent := by
    rw [magnitude]
    omega
  rw [hnext, hfirst, zpow_add₀ (by norm_num), zpow_add₀ (by norm_num), zpow_natCast, zpow_natCast,
    toRat]
  constructor
  · exact mul_le_mul_of_nonneg_right (by exact_mod_cast hlower) hpos.le
  · exact mul_lt_mul_of_pos_right (by exact_mod_cast hupper) hpos

/-- A positive number is not rounded to zero, as its first digit is kept. -/
theorem coefficient_round_ne_zero {places : ℕ} (hx : x.coefficient ≠ 0) (hplaces : 0 < places) :
    (x.round places).coefficient ≠ 0 := by
  have hle : 10 ^ ((digits x.coefficient).length - places) ≤ x.coefficient :=
    le_trans (Nat.pow_le_pow_right (by decide) (by omega)) (pow_length_digits hx).1
  have hpow : 0 < 10 ^ ((digits x.coefficient).length - places) := Nat.pow_pos (by decide)
  have hdiv := (Nat.div_pos hle hpow).trans_le (div_le_roundedQuotient x.coefficient _)
  exact hdiv.ne'

/-- A number that has no more digits is not changed. -/
theorem round_of_length_le {places : ℕ} (h : (digits x.coefficient).length ≤ places) :
    x.round places = x := by
  have hone := roundedQuotient_mul x.coefficient one_pos
  rw [mul_one] at hone
  rw [round, Nat.sub_eq_zero_of_le h]
  simp [hone]

/-- Digits that are cut off leave a number on the grid of those that are kept. -/
theorem isNearest_round {places : ℕ} (h : places ≤ (digits x.coefficient).length) :
    IsNearest (10 ^ (x.magnitude + 1 - places)) x.toRat (x.round places).coefficient := by
  obtain ⟨k, hk⟩ := Nat.exists_eq_add_of_le h
  have hcut : (digits x.coefficient).length - places = k := by omega
  have hgrid : x.magnitude + 1 - places = k + x.exponent := by
    rw [magnitude]
    omega
  have hpow : 0 < 10 ^ k := Nat.pow_pos (by decide)
  obtain ⟨hle, heven⟩ := two_mul_sub_roundedQuotient x.coefficient hpow
  set n := roundedQuotient x.coefficient (10 ^ k)
  have hround : (x.round places).coefficient = n := by
    rw [round, hcut]
    rfl
  -- In units of the last digit the distance is that of the rounded quotient.
  have hdistance : 2 * |x.toRat - (n : ℤ) * 10 ^ (k + x.exponent)| =
      ((2 * |(x.coefficient : ℤ) - n * (10 ^ k : ℕ)| : ℤ) : ℚ) * 10 ^ x.exponent := by
    have hfactor : x.toRat - (n : ℤ) * 10 ^ (k + x.exponent) =
        ((x.coefficient : ℤ) - n * (10 ^ k : ℕ) : ℤ) * 10 ^ x.exponent := by
      rw [toRat, zpow_add₀ (by norm_num), zpow_natCast]
      push_cast
      ring
    rw [hfactor, abs_mul, abs_of_pos (ten_zpow_pos x.exponent)]
    push_cast
    ring
  have hunit : (10 : ℚ) ^ (k + x.exponent) = ((10 ^ k : ℕ) : ℤ) * 10 ^ x.exponent := by
    rw [zpow_add₀ (by norm_num), zpow_natCast]
    push_cast
    rfl
  rw [hgrid, hround]
  refine .of_two_mul_le (ten_zpow_pos _) ?_ ?_
  · rw [hdistance, hunit]
    exact mul_le_mul_of_nonneg_right (by exact_mod_cast hle) (ten_zpow_pos x.exponent).le
  · intro heq
    rw [hdistance, hunit] at heq
    have hcast := mul_right_cancel₀ (ten_zpow_pos x.exponent).ne' heq
    exact_mod_cast heven (by exact_mod_cast hcast)

/-- A number with no more digits is on the grid itself. -/
theorem roundsTo_self {places : ℕ} (hx : x.coefficient ≠ 0)
    (h : (digits x.coefficient).length ≤ places) : RoundsTo places x.toRat x.toRat := by
  obtain ⟨hlower, hupper⟩ := zpow_magnitude_le hx
  rw [← abs_of_pos (toRat_pos hx)] at hlower hupper
  have hvalue : x.toRat = ((x.coefficient * 10 ^ (places - (digits x.coefficient).length) : ℕ) :
      ℤ) * 10 ^ (x.magnitude + 1 - places) := by
    have hexponent : x.exponent = (places - (digits x.coefficient).length : ℕ) +
        (x.magnitude + 1 - places) := by
      rw [magnitude]
      omega
    rw [toRat, hexponent, zpow_add₀ (by norm_num), zpow_natCast]
    push_cast
    ring
  have hself := RoundsTo.nearest x.magnitude _ hlower hupper
    (hvalue ▸ IsNearest.refl (ten_zpow_pos _) _)
  rwa [← hvalue] at hself

/-- The last digit that is kept counts the unit of the grid. -/
theorem toRat_round {places : ℕ} (h : places ≤ (digits x.coefficient).length) :
    (x.round places).toRat =
      ((x.round places).coefficient : ℤ) * 10 ^ (x.magnitude + 1 - places) := by
  have hexponent : (x.round places).exponent = x.magnitude + 1 - places := by
    rw [round, magnitude]
    dsimp only
    omega
  rw [toRat, hexponent]
  rfl

theorem coefficient_round_of_eq_zero (hx : x.coefficient = 0) (places : ℕ) :
    (x.round places).coefficient = 0 := by
  have hzero := roundedQuotient_mul 0
    (Nat.pow_pos (n := (digits 0).length - places) (by decide : 0 < 10))
  rw [zero_mul] at hzero
  rw [round, hx]
  exact hzero

/-- A decimal number is rounded to the nearest one with at most so many significant digits. -/
theorem roundsTo_round (x : Decimal) (places : ℕ) :
    RoundsTo places x.toRat (x.round places).toRat := by
  rcases eq_or_ne x.coefficient 0 with hx | hx
  · rw [toRat, toRat, coefficient_round_of_eq_zero hx, hx, Nat.cast_zero, zero_mul, zero_mul]
    exact .zero
  · rcases le_total (digits x.coefficient).length places with hle | hle
    · rw [round_of_length_le hle]
      exact roundsTo_self hx hle
    · obtain ⟨hlower, hupper⟩ := zpow_magnitude_le hx
      rw [← abs_of_pos (toRat_pos hx)] at hlower hupper
      rw [toRat_round hle]
      exact .nearest x.magnitude _ hlower hupper (isNearest_round hle)

end Decimal

/-! ## Doubles -/

namespace Binary

variable (x : Binary)

open Float.Model Float.Model.UnpackedFloat in
/-- The doubles that have an exact value are the finite ones. -/
theorem isSome_ofFloat? (a : Float) : (ofFloat? a).isSome = a.isFinite := by
  obtain ⟨bits, hbits⟩ : ∃ bits : BitVec Format.binary64.numBits, a.toBits.toBitVec = bits :=
    ⟨_, rfl⟩
  have hpacked := packComponents_unpackSign_unpackExponent_unpackMantissa bits
  have hones : (unpackExponent bits).toNat = 2047 ↔ unpackExponent bits = -1#11 :=
    BitVec.toNat_inj (y := -1#11)
  change _ = (UnpackedFloat.unpack .binary64 a.toBits.toBitVec).isFinite
  rw [ofFloat?_eq (hbits.trans hpacked.symm), hbits, UnpackedFloat.unpack]
  by_cases hexponent : unpackExponent bits = -1#11
  · rw [if_pos (hones.mpr hexponent), if_pos hexponent]
    split <;> rfl
  · rw [if_neg (mt hones.mp hexponent), if_neg hexponent]
    split
    · split
      · split <;> rfl
      · rfl
    · split
      · split <;> rfl
      · rfl

theorem abs_toRat : |x.toRat| = x.mantissa * 2 ^ x.exponent := by
  have habs : |if x.negative then -(x.mantissa : ℚ) else x.mantissa| = x.mantissa := by
    split
    · rw [abs_neg, Nat.abs_cast]
    · exact Nat.abs_cast _
  rw [toRat, abs_mul, habs, abs_of_pos (Unpacked.two_zpow_pos x.exponent)]

/-- The decimal expansion of a double is exact. -/
theorem toRat_toDecimal : x.toDecimal.toRat = |x.toRat| := by
  rw [abs_toRat, Decimal.toRat, toDecimal]
  rcases le_total 0 x.exponent with hexponent | hexponent
  · obtain ⟨k, hk⟩ := Int.eq_ofNat_of_zero_le hexponent
    have hfive : (-(k : ℤ)).toNat = 0 := by omega
    have hmin : min (k : ℤ) 0 = 0 := by omega
    simp only [hk, Int.toNat_natCast, hfive, hmin, Nat.pow_eq, zpow_natCast]
    push_cast
    ring
  · obtain ⟨k, hk⟩ := Int.exists_eq_neg_ofNat hexponent
    have htwo : (-(k : ℤ)).toNat = 0 := by omega
    have hmin : min (-(k : ℤ)) 0 = -k := by omega
    -- A half is five tenths.
    have hfive : (5 : ℚ) ^ k * (10 ^ k)⁻¹ = (2 ^ k)⁻¹ := by
      rw [← inv_pow, ← inv_pow, ← mul_pow]
      norm_num
    simp only [hk, htwo, neg_neg, Int.toNat_natCast, hmin, Nat.pow_eq, zpow_neg, zpow_natCast]
    push_cast
    rw [mul_one, mul_assoc, hfive]

theorem toRat_eq_abs : x.toRat = if x.negative then -|x.toRat| else |x.toRat| := by
  rw [abs_toRat, toRat]
  split
  · exact neg_mul _ _
  · rfl

/-- What a double is rounded to: its magnitude is rounded, and it keeps its sign. -/
def rounded (places : ℕ) (x : Binary) : ℚ :=
  if x.negative then -(x.toDecimal.round places).toRat else (x.toDecimal.round places).toRat

theorem coefficient_toDecimal_ne_zero {x : Binary} (hx : x.mantissa ≠ 0) :
    x.toDecimal.coefficient ≠ 0 :=
  Nat.mul_ne_zero (Nat.mul_ne_zero hx (Nat.pow_pos (by decide)).ne') (Nat.pow_pos (by decide)).ne'

theorem roundsTo_round_toDecimal (places : ℕ) :
    RoundsTo places |x.toRat| (x.toDecimal.round places).toRat := by
  rw [← toRat_toDecimal]
  exact x.toDecimal.roundsTo_round places

theorem roundsTo_rounded (places : ℕ) : RoundsTo places x.toRat (x.rounded places) := by
  have hround := x.roundsTo_round_toDecimal places
  rw [toRat_eq_abs, rounded]
  split
  · exact hround.neg
  · exact hround

end Binary

end Reckoner
