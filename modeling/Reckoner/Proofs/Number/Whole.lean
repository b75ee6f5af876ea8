import Reckoner.Proofs.Number.Negation
import Reckoner.Proofs.Number.Numeral

/-!
# Whole numbers as doubles

A natural number up to `2 ^ 53` is a mantissa of 53 binary digits times a power of two, and no other
such mantissa with a power of two has its value. A number that is rounded and has such a form is not
changed by it: only zeros are shifted out. So a sum and a product of doubles that are whole numbers
are exact as long as the result does not exceed `2 ^ 53`, and so are a negation and the reading of
digits.
-/

namespace Reckoner

/-- The value of a signed number. -/
def Binary.toRat (x : Binary) : ℚ :=
  (if x.negative then -(x.mantissa : ℚ) else x.mantissa) * 2 ^ x.exponent

/-- The greatest number up to which all whole numbers are doubles. -/
def wholeLimit : Nat := 2 ^ 53

namespace Unpacked

open Float.Model Float.Model.UnpackedFloat

/-! ## Mantissas of 53 digits -/

/-- A mantissa of 53 binary digits and an exponent that have a value. -/
structure Fills (value : ℚ) (mantissa : Nat) (exponent : Int) : Prop where
  lower : 2 ^ 52 ≤ mantissa
  upper : mantissa < 2 ^ 53
  value_eq : (mantissa : ℚ) * 2 ^ exponent = value

variable {value : ℚ} {m m' n : Nat} {e e' : Int}

theorem two_zpow_pos (e : Int) : (0 : ℚ) < 2 ^ e := zpow_pos two_pos e

/-- A smaller power of two has the greater factor. -/
theorem eq_mul_two_pow (h : (m : ℚ) * 2 ^ e = m' * 2 ^ e') (hle : e ≤ e') :
    m = m' * 2 ^ (e' - e).toNat := by
  have hexponent : e' = ((e' - e).toNat : Int) + e := by omega
  have hcast : (m : ℚ) = (m' * 2 ^ (e' - e).toNat : ℕ) := by
    refine mul_right_cancel₀ (two_zpow_pos e).ne' ?_
    rw [h, Nat.cast_mul, Nat.cast_pow, Nat.cast_ofNat, mul_assoc, ← zpow_natCast,
      ← zpow_add₀ two_ne_zero, ← hexponent]
  exact_mod_cast hcast

/-- A mantissa with at least as many digits has at most the exponent. -/
theorem Fills.le_exponent (h : Fills value m' e') (hm : 2 ^ 52 ≤ m)
    (hvalue : (m : ℚ) * 2 ^ e = value) : e ≤ e' := by
  by_contra hlt
  have hle : e' ≤ e := by omega
  have hm' : m' = m * 2 ^ (e - e').toNat :=
    eq_mul_two_pow (h.value_eq.trans hvalue.symm) hle
  have hone : 1 ≤ (e - e').toNat := by omega
  have htwo : 2 ≤ 2 ^ (e - e').toNat := Nat.pow_le_pow_right two_pos hone
  have hdouble : m * 2 ≤ m' := hm' ▸ Nat.mul_le_mul_left m htwo
  have hupper := h.upper
  omega

/-- The exponent of a whole number up to the limit. -/
theorem Fills.exponent_mem (h : Fills (n : ℚ) m e) (hn : 0 < n) (hlimit : n ≤ wholeLimit) :
    -52 ≤ e ∧ e ≤ 1 := by
  have hlower := h.lower
  have hupper := h.upper
  constructor
  · by_contra hlt
    -- Otherwise the mantissa would be the number times `2 ^ 53` or more.
    have hm : m = n * 2 ^ (0 - e).toNat :=
      eq_mul_two_pow (by rw [h.value_eq, zpow_zero, mul_one]) (by omega)
    have hpow : 2 ^ 53 ≤ 2 ^ (0 - e).toNat := Nat.pow_le_pow_right two_pos (by omega)
    have hle : 2 ^ (0 - e).toNat ≤ n * 2 ^ (0 - e).toNat := Nat.le_mul_of_pos_left _ hn
    omega
  · by_contra hlt
    have hm : n = m * 2 ^ (e - 0).toNat :=
      eq_mul_two_pow (by rw [h.value_eq, zpow_zero, mul_one]) (by omega)
    have hpow : 2 ^ 2 ≤ 2 ^ (e - 0).toNat := Nat.pow_le_pow_right two_pos (by omega)
    have hle : m * 2 ^ 2 ≤ n := hm ▸ Nat.mul_le_mul_left m hpow
    rw [wholeLimit] at hlimit
    omega

/-- Every whole number up to the limit has 53 binary digits with some power of two. -/
theorem exists_fills (hn : 0 < n) (hlimit : n ≤ wholeLimit) : ∃ m e, Fills (n : ℚ) m e := by
  rcases Nat.lt_or_eq_of_le hlimit with hlt | rfl
  · have hlog : n.log2 < 53 := (Nat.log2_lt hn.ne').mpr hlt
    obtain ⟨hlower, hupper⟩ := (Nat.log2_eq_iff hn.ne').mp rfl
    have hpow : 2 ^ n.log2 * 2 ^ (52 - n.log2) = 2 ^ 52 := by
      rw [← pow_add]
      congr 1
      omega
    refine ⟨n * 2 ^ (52 - n.log2), -((52 - n.log2 : ℕ) : Int), ?_, ?_, ?_⟩
    · rw [← hpow]
      exact Nat.mul_le_mul_right _ hlower
    · calc n * 2 ^ (52 - n.log2)
          < 2 ^ (n.log2 + 1) * 2 ^ (52 - n.log2) :=
            Nat.mul_lt_mul_of_pos_right hupper (Nat.two_pow_pos _)
        _ = 2 ^ 53 := by rw [pow_succ, mul_right_comm, hpow, ← pow_succ]
    · rw [Nat.cast_mul, Nat.cast_pow, Nat.cast_ofNat, mul_assoc, ← zpow_natCast,
        ← zpow_add₀ two_ne_zero, add_neg_cancel, zpow_zero, mul_one]
  · exact ⟨2 ^ 52, 1, le_rfl, by decide, by norm_num [wholeLimit]⟩

/-! ## Rounding -/

/-- Zeros are shifted out of a mantissa without a trace. -/
theorem shiftRight_mul_two_pow (m k : Nat) :
    (⟨m * 2 ^ k, false, false⟩ : ExtendedMantissa) >>> k = ⟨m, false, false⟩ := by
  change k.repeat ExtendedMantissa.shiftRightOne _ = _
  induction k generalizing m with
  | zero => simp [Nat.repeat]
  | succ k ih =>
    have hdouble : m * 2 ^ (k + 1) = m * 2 * 2 ^ k := by ring
    rw [Nat.repeat, hdouble, ih]
    simp [ExtendedMantissa.shiftRightOne]

theorem log2_mul_two_pow (hm : m ≠ 0) (k : Nat) : (m * 2 ^ k).log2 = m.log2 + k := by
  induction k with
  | zero => rw [pow_zero, mul_one, Nat.add_zero]
  | succ k ih =>
    have hne : m * 2 ^ k ≠ 0 := Nat.mul_ne_zero hm (Nat.two_pow_pos k).ne'
    rw [pow_succ, ← mul_assoc, mul_comm _ 2, Nat.log2_two_mul hne, ih, Nat.add_assoc]

/-- The exponent that rounding aims at for a value with a mantissa of 53 digits is the exponent of
that mantissa, with whatever mantissa the value is given. -/
theorem Fills.targetExponent_eq (h : Fills value m' e') (hmin : -1074 ≤ e')
    (hvalue : (m : ℚ) * 2 ^ e = value) :
    Format.binary64.targetExponent (totalExponent m e) = e' := by
  have hlower := h.lower
  have hne : m' ≠ 0 := by omega
  have hlog : m'.log2 = 52 := (Nat.log2_eq_iff hne).mpr ⟨hlower, h.upper⟩
  have hpos : m ≠ 0 := by
    rintro rfl
    rw [Nat.cast_zero, zero_mul] at hvalue
    have hzero := h.value_eq.trans hvalue.symm
    simp [hne, (two_zpow_pos e').ne'] at hzero
  have htotal : totalExponent m e = 53 + e' := by
    rw [totalExponent]
    rcases le_total e e' with hle | hle
    · rw [eq_mul_two_pow (hvalue.trans h.value_eq.symm) hle, log2_mul_two_pow hne, hlog]
      omega
    · have hm' := eq_mul_two_pow (h.value_eq.trans hvalue.symm) hle
      rw [hm', log2_mul_two_pow hpos] at hlog
      omega
  rw [htotal, Format.targetExponent]
  change max (53 + e' - ((1 + 52 : ℕ) : Int)) (3 - 2 ^ 10 - ((1 + 52 : ℕ) : Int)) = e'
  omega

/-- Rounding does not change a value that has a mantissa of 53 digits. -/
theorem Fills.roundWithAccuracy_eq (h : Fills value m' e') (hmin : -1074 ≤ e') (hle : e ≤ e')
    (hvalue : (m : ℚ) * 2 ^ e = value) (s : Sign) :
    roundWithAccuracy .binary64 s m e .exact =
      .finite s m' e' (Nat.lt_of_lt_of_le (by decide) h.lower) := by
  have hm : m = m' * 2 ^ (e' - e).toNat := eq_mul_two_pow (hvalue.trans h.value_eq.symm) hle
  have hfirst : shiftToTargetExponent .binary64 m e .exact = (⟨m', false, false⟩, e') := by
    rw [shiftToTargetExponent, h.targetExponent_eq hmin hvalue, shiftToExponent]
    refine Prod.ext ?_ (by change e + ((e' - e).toNat : Int) = e'; omega)
    rw [hm]
    exact shiftRight_mul_two_pow m' _
  have hsecond : shiftToTargetExponent .binary64 m' e' .exact = (⟨m', false, false⟩, e') := by
    rw [shiftToTargetExponent, h.targetExponent_eq hmin h.value_eq, shiftToExponent, sub_self]
    exact Prod.ext rfl (add_zero e')
  have hne : m' ≠ 0 := by
    have hlower := h.lower
    omega
  have hrounded : (⟨m', false, false⟩ : ExtendedMantissa).roundedMantissa = m' := rfl
  simp only [roundWithAccuracy, hfirst, hrounded, hsecond]
  exact dif_neg hne

theorem Fills.round_eq (h : Fills value m' e') (hmin : -1074 ≤ e')
    (hvalue : (m : ℚ) * 2 ^ e = value) (s : Sign) :
    UnpackedFloat.round .binary64 s m e =
      .finite s m' e' (Nat.lt_of_lt_of_le (by decide) h.lower) := by
  rw [UnpackedFloat.round, h.targetExponent_eq hmin hvalue, decreaseExponent]
  rcases le_total e e' with hle | hle
  · have hzero : (e - e').toNat = 0 := by omega
    simp only [hzero, Nat.shiftLeft_zero, Nat.cast_zero, sub_zero]
    exact h.roundWithAccuracy_eq hmin hle hvalue s
  · have hm' : m <<< (e - e').toNat = m' := by
      rw [Nat.shiftLeft_eq, ← eq_mul_two_pow (h.value_eq.trans hvalue.symm) hle]
    have he' : e - ((e - e').toNat : Int) = e' := by omega
    simp only [hm', he']
    exact h.roundWithAccuracy_eq hmin le_rfl h.value_eq s

/-! ## Whole numbers -/

/-- An unpacked double is a whole number up to the limit. -/
inductive IsWhole : UnpackedFloat → Int → Prop
  | zero (s : Sign) : IsWhole (.zero s) 0
  | finite (s : Sign) {n m : Nat} {e : Int} {hm : 0 < m} (hn : 0 < n) (hlimit : n ≤ wholeLimit)
    (h : Fills (n : ℚ) m e) : IsWhole (.finite s m e hm) (s.apply n)

theorem natAbs_apply (s : Sign) (n : Nat) : (s.apply n).natAbs = n := by
  cases s with
  | positive => rfl
  | negative => exact Int.natAbs_neg n

/-- What is rounded to a whole number up to the limit has 53 digits or more. -/
theorem isWhole_roundWithAccuracy (hn : 0 < n) (hlimit : n ≤ wholeLimit) (hm : 2 ^ 52 ≤ m)
    (hvalue : (m : ℚ) * 2 ^ e = n) (s : Sign) :
    IsWhole (roundWithAccuracy .binary64 s m e .exact) (s.apply n) := by
  obtain ⟨m', e', h⟩ := exists_fills hn hlimit
  have hmin : -1074 ≤ e' := by
    have hmem := h.exponent_mem hn hlimit
    omega
  rw [h.roundWithAccuracy_eq hmin (h.le_exponent hm hvalue) hvalue s]
  exact .finite s hn hlimit h

theorem isWhole_round (hn : 0 < n) (hlimit : n ≤ wholeLimit)
    (hvalue : (m : ℚ) * 2 ^ e = n) (s : Sign) :
    IsWhole (UnpackedFloat.round .binary64 s m e) (s.apply n) := by
  obtain ⟨m', e', h⟩ := exists_fills hn hlimit
  have hmin : -1074 ≤ e' := by
    have hmem := h.exponent_mem hn hlimit
    omega
  rw [h.round_eq hmin hvalue s]
  exact .finite s hn hlimit h

/-- A signed mantissa is normalised to the whole number that it is. -/
theorem isWhole_normalize {k r : Int} (hlimit : r.natAbs ≤ wholeLimit)
    (hvalue : (k : ℚ) * 2 ^ e = r) (s : Sign) :
    IsWhole (UnpackedFloat.normalize .binary64 k e s) r := by
  have habs : (k.natAbs : ℚ) * 2 ^ e = r.natAbs := by
    rw [Nat.cast_natAbs, Nat.cast_natAbs, Int.cast_abs, Int.cast_abs, ← hvalue, abs_mul,
      abs_of_pos (two_zpow_pos e)]
  rw [UnpackedFloat.normalize.eq_def]
  rcases lt_trichotomy k 0 with hneg | rfl | hpos
  · have hcompare : compare k 0 = .lt := Int.compare_eq_lt.mpr hneg
    have hrneg : (r : ℚ) < 0 :=
      hvalue ▸ mul_neg_of_neg_of_pos (by exact_mod_cast hneg) (two_zpow_pos e)
    have hrneg : r < 0 := by exact_mod_cast hrneg
    have hwhole := isWhole_round (Int.natAbs_pos.mpr hrneg.ne) hlimit habs .negative
    have hr : Sign.negative.apply (r.natAbs : Int) = r := by
      change -(r.natAbs : Int) = r
      omega
    have hk : (-k).toNat = k.natAbs := by omega
    rw [hr] at hwhole
    simpa only [hcompare, hk] using hwhole
  · rw [Int.cast_zero, zero_mul] at hvalue
    have hr : r = 0 := by exact_mod_cast hvalue.symm
    subst hr
    exact .zero s
  · have hcompare : compare k 0 = .gt := Int.compare_eq_gt.mpr hpos
    have hrpos : (0 : ℚ) < r := hvalue ▸ mul_pos (by exact_mod_cast hpos) (two_zpow_pos e)
    have hrpos : 0 < r := by exact_mod_cast hrpos
    have hwhole := isWhole_round (Int.natAbs_pos.mpr hrpos.ne') hlimit habs .positive
    have hr : Sign.positive.apply (r.natAbs : Int) = r := Int.natAbs_of_nonneg hrpos.le
    have hk : k.toNat = k.natAbs := by omega
    rw [hr] at hwhole
    simpa only [hcompare, hk] using hwhole

namespace IsWhole

variable {x y : UnpackedFloat} {a b : Int}

theorem isFinite (h : IsWhole x a) : x.isFinite = true := by
  cases h with
  | zero s => rfl
  | finite s hn hlimit h => rfl

theorem neg (h : IsWhole x a) : IsWhole x.neg (-a) := by
  cases h with
  | zero s => exact .zero (-s)
  | finite s hn hlimit h =>
    rw [← sign_neg_apply]
    exact .finite (-s) hn hlimit h

/-- A value with a sign. -/
theorem cast_apply (hvalue : (m : ℚ) * 2 ^ e = n) (s : Sign) :
    ((s.apply m : Int) : ℚ) * 2 ^ e = (s.apply n : Int) := by
  cases s with
  | positive => exact_mod_cast hvalue
  | negative =>
    change ((-(m : Int) : Int) : ℚ) * 2 ^ e = ((-(n : Int) : Int) : ℚ)
    rw [Int.cast_neg, Int.cast_neg, neg_mul, Int.cast_natCast, Int.cast_natCast, hvalue]

/-- With a smaller exponent a mantissa keeps its value. -/
theorem cast_apply_shiftLeft (h : Fills (n : ℚ) m e) (hle : e' ≤ e) (s : Sign) :
    ((s.apply (m <<< (e - e').toNat : ℕ) : Int) : ℚ) * 2 ^ e' = (s.apply n : Int) := by
  have he : e = ((e - e').toNat : Int) + e' := by omega
  refine cast_apply ?_ s
  rw [Nat.shiftLeft_eq, Nat.cast_mul, Nat.cast_pow, Nat.cast_ofNat, mul_assoc, ← zpow_natCast,
    ← zpow_add₀ two_ne_zero, ← he, h.value_eq]

/-- A sum up to the limit is exact. -/
theorem add (hx : IsWhole x a) (hy : IsWhole y b) (hlimit : (a + b).natAbs ≤ wholeLimit) :
    IsWhole (UnpackedFloat.add .binary64 x y) (a + b) := by
  cases hx with
  | zero s =>
    rw [zero_add]
    cases hy with
    | zero s' =>
      rw [UnpackedFloat.add]
      split
      · exact .zero s
      · exact .zero .positive
    | finite s' hn' hlimit' h' => exact .finite s' hn' hlimit' h'
  | @finite s n m e _ hn hn' h =>
    cases hy with
    | zero s' =>
      rw [add_zero]
      exact .finite s hn hn' h
    | @finite s' n' m' e' _ _ _ h' =>
      rw [UnpackedFloat.add]
      refine isWhole_normalize hlimit ?_ .positive
      rw [Int.cast_add, Int.cast_add, add_mul, cast_apply_shiftLeft h (min_le_left e e'),
        cast_apply_shiftLeft h' (min_le_right e e')]

/-- A product up to the limit is exact. -/
theorem mul (hx : IsWhole x a) (hy : IsWhole y b) (hlimit : (a * b).natAbs ≤ wholeLimit) :
    IsWhole (UnpackedFloat.mul .binary64 x y) (a * b) := by
  cases hx with
  | zero s =>
    rw [zero_mul]
    cases hy with
    | zero s' => exact .zero (s * s')
    | finite s' => exact .zero (s * s')
  | @finite s n m e _ hn _ h =>
    cases hy with
    | zero s' =>
      rw [mul_zero]
      exact .zero (s * s')
    | @finite s' n' m' e' _ hn' _ h' =>
      have hsign : s.apply n * s'.apply n' = (s * s').apply (n * n' : ℕ) := by
        rw [Nat.cast_mul]
        cases s <;> cases s' <;> simp [Sign.apply]
      have hdigits : 2 ^ 52 ≤ m * m' :=
        le_trans h.lower (Nat.le_mul_of_pos_right m (Nat.lt_of_lt_of_le (by decide) h'.lower))
      have hvalue : ((m * m' : ℕ) : ℚ) * 2 ^ (e + e') = (n * n' : ℕ) := by
        rw [Nat.cast_mul, Nat.cast_mul, zpow_add₀ two_ne_zero, mul_mul_mul_comm, h.value_eq,
          h'.value_eq]
      rw [hsign, natAbs_apply] at hlimit
      rw [hsign]
      exact isWhole_roundWithAccuracy (Nat.mul_pos hn hn') hlimit hdigits hvalue _

/-- A quotient by one is exact. -/
theorem div_one (hx : IsWhole x a) {hone : 0 < 2 ^ 52} :
    IsWhole (UnpackedFloat.div .binary64 x (.finite .positive (2 ^ 52) (-52) hone)) a := by
  cases hx with
  | zero s => exact .zero (s / .positive)
  | @finite s n m e _ hn hlimit h =>
    have hmem := h.exponent_mem hn hlimit
    have hlog : m.log2 = 52 :=
      (Nat.log2_eq_iff (Nat.lt_of_lt_of_le (by decide) h.lower).ne').mpr ⟨h.lower, h.upper⟩
    have htarget : Format.binary64.targetExponent
        (totalExponent m e - totalExponent (2 ^ 52) (-52)) = e - 1 := by
      rw [totalExponent, totalExponent, hlog, Nat.log2_two_pow, Format.targetExponent]
      change max ((52 : ℕ) + 1 + e - ((52 : ℕ) + 1 + -52) - ((1 + 52 : ℕ) : Int))
        (3 - 2 ^ 10 - ((1 + 52 : ℕ) : Int)) = e - 1
      omega
    -- The dividend is shifted by one digit more than the divisor has zeros.
    have hcore : divCore .binary64 m e (2 ^ 52) (-52) = (m * 2, e - 1, .exact) := by
      have hmin : min (e - -52) (e - 1) = e - 1 := by omega
      have hshift : (e - -52 - (e - 1)).toNat = 53 := by omega
      have hquotient : m <<< 53 = m * 2 * 2 ^ 52 := by
        rw [Nat.shiftLeft_eq, mul_assoc, ← pow_succ']
      simp only [divCore, htarget, hmin, hshift, hquotient,
        Nat.mul_div_cancel _ (Nat.two_pow_pos 52), Nat.mul_mod_left]
      rfl
    have hvalue : ((m * 2 : ℕ) : ℚ) * 2 ^ (e - 1) = n := by
      rw [Nat.cast_mul, Nat.cast_ofNat, mul_assoc, ← zpow_one_add₀ two_ne_zero,
        add_sub_cancel, h.value_eq]
    have hdigits : 2 ^ 52 ≤ m * 2 := le_trans h.lower (Nat.le_mul_of_pos_right m two_pos)
    have hsign : s / .positive = s := by cases s <;> rfl
    rw [UnpackedFloat.div, hcore, hsign]
    exact isWhole_roundWithAccuracy hn hlimit hdigits hvalue s

/-- The packed form of a whole number that is not zero. -/
theorem pack_eq (hn : 0 < n) (hlimit : n ≤ wholeLimit) (h : Fills (n : ℚ) m e) (s : Sign)
    (hm : 0 < m) :
    UnpackedFloat.pack .binary64 (.finite s m e hm) =
      packComponents .binary64 s (BitVec.ofNat 11 (e + 1075).toNat) (BitVec.ofNat 52 m) := by
  have hmem := h.exponent_mem hn hlimit
  have hlog : m.log2 = 52 := (Nat.log2_eq_iff hm.ne').mpr ⟨h.lower, h.upper⟩
  have hbias : (e + (Format.binary64.exponentBias : Int) +
      (Format.binary64.mantissaBitsWithoutImplicit : Int)).toNat = (e + 1075).toNat := by
    change (e + ((2 ^ 10 - 1 : ℕ) : Int) + ((52 : ℕ) : Int)).toNat = _
    omega
  have hfinite : ¬2 ^ 11 ≤ (e + 1075).toNat + 1 := by omega
  have hnormal : m.log2 + 1 = Format.binary64.mantissaBits := by
    rw [hlog]
    rfl
  simp only [UnpackedFloat.pack, hbias, if_neg hfinite, if_pos hnormal]

/-- The packed exponent of a whole number is not cut. -/
theorem toNat_scale (hmem : -52 ≤ e ∧ e ≤ 1) :
    (BitVec.ofNat 11 (e + 1075).toNat).toNat = (e + 1075).toNat := by
  rw [BitVec.toNat_ofNat, Nat.mod_eq_of_lt (by omega)]

/-- A whole number is packed and unpacked without a change. -/
theorem unpack_pack (hx : IsWhole x a) : (Float.Model.pack x).unpack = x := by
  cases hx with
  | zero s => exact unpack_packedZero
  | @finite s n m e hm hn hlimit h =>
    have hmem := h.exponent_mem hn hlimit
    have hlower := h.lower
    have hupper := h.upper
    have hexponent := toNat_scale hmem
    have hmantissa : (1#1 ++ BitVec.ofNat 52 m).toNat = m := by
      rw [BitVec.toNat_append, ← Nat.shiftLeft_add_eq_or_of_lt (BitVec.ofNat 52 m).isLt]
      change 1 <<< 52 + m % 2 ^ 52 = m
      omega
    have hinfinite : BitVec.ofNat 11 (e + 1075).toNat ≠ -1#11 := by
      intro heq
      have hnat := congrArg BitVec.toNat heq
      rw [hexponent] at hnat
      change (e + 1075).toNat = 2047 at hnat
      omega
    have hsubnormal : BitVec.ofNat 11 (e + 1075).toNat ≠ 0#11 := by
      intro heq
      have hnat := congrArg BitVec.toNat heq
      rw [hexponent] at hnat
      change (e + 1075).toNat = 0 at hnat
      omega
    change UnpackedFloat.unpack .binary64 (UnpackedFloat.pack .binary64 _) = _
    rw [pack_eq hn hlimit h s hm, UnpackedFloat.unpack]
    simp only [unpackSign_packComponents, unpackExponent_packComponents,
      unpackMantissa_packComponents, Sign.ofBitVec_toBitVec]
    rw [if_neg hinfinite, if_neg hsubnormal]
    have hscale : ((BitVec.ofNat 11 (e + 1075).toNat).toNat : Int) -
        ((Format.binary64.exponentBias : Int) +
          (Format.binary64.mantissaBitsWithoutImplicit : Int)) = e := by
      rw [hexponent]
      change ((e + 1075).toNat : Int) - (((2 ^ 10 - 1 : ℕ) : Int) + ((52 : ℕ) : Int)) = e
      omega
    simp only [hmantissa, hscale]

end IsWhole

end Unpacked

/-! ## Doubles -/

/-- A double is a whole number up to the limit. -/
def IsExactly (a : Float) (n : Int) : Prop := Unpacked.IsWhole a.toModel.unpack n

namespace IsExactly

open Float.Model

variable {a b : Float} {m n : Int} {k : Nat}

theorem of_pack {x : UnpackedFloat} (h : Unpacked.IsWhole x n) :
    IsExactly (.ofModel (Float.Model.pack x)) n := by
  rw [IsExactly, h.unpack_pack]
  exact h

theorem neg (h : IsExactly a n) : IsExactly (-a) (-n) := of_pack (Unpacked.IsWhole.neg h)

theorem add (ha : IsExactly a m) (hb : IsExactly b n) (hlimit : (m + n).natAbs ≤ wholeLimit) :
    IsExactly (a + b) (m + n) := of_pack (Unpacked.IsWhole.add ha hb hlimit)

theorem mul (ha : IsExactly a m) (hb : IsExactly b n) (hlimit : (m * n).natAbs ≤ wholeLimit) :
    IsExactly (a * b) (m * n) := of_pack (Unpacked.IsWhole.mul ha hb hlimit)

theorem isFinite (h : IsExactly a n) : a.isFinite = true := Unpacked.IsWhole.isFinite h

/-- The exact value of a double that is a whole number. -/
theorem map_toRat_ofFloat? (h : IsExactly a n) :
    (Binary.ofFloat? a).map Binary.toRat = some (n : ℚ) := by
  have hbits : a.toBits.toBitVec = UnpackedFloat.pack .binary64 a.toModel.unpack :=
    congrArg (fun x : Float.Model ↦ x.toBits.toBitVec) (Unpacked.pack_unpack a.toModel).symm
  rw [IsExactly] at h
  generalize a.toModel.unpack = x at h hbits
  cases h with
  | zero s =>
    rw [Binary.ofFloat?_eq (s := s) (e := 0) (m := 0) hbits]
    cases s <;> simp [Binary.toRat]
  | @finite s n m e hm hn hlimit h =>
    have hmem := h.exponent_mem hn hlimit
    have hlower := h.lower
    have hupper := h.upper
    rw [Unpacked.IsWhole.pack_eq hn hlimit h s hm] at hbits
    have hexponent := Unpacked.IsWhole.toNat_scale hmem
    have hmantissa : (BitVec.ofNat 52 m).toNat + Nat.pow 2 52 = m := by
      rw [BitVec.toNat_ofNat]
      change m % 2 ^ 52 + 2 ^ 52 = m
      omega
    have hscale : ((e + 1075).toNat : Int) - 1075 = e := by omega
    rw [Binary.ofFloat?_eq hbits, hexponent, if_neg (by omega), if_neg (by omega), hmantissa,
      hscale, Option.map_some, ← Unpacked.IsWhole.cast_apply h.value_eq s]
    cases s <;> simp [Binary.toRat, UnpackedFloat.Sign.apply]

/-! ## Reading digits -/

/-- A natural number below the limit is a double. -/
theorem toFloat (hlimit : k < wholeLimit) : IsExactly k.toUInt64.toFloat k := by
  have hnat : k.toUInt64.toNat = k := Nat.mod_eq_of_lt (Nat.lt_trans hlimit (by decide))
  refine of_pack ?_
  rw [UnpackedFloat.ofUInt64, UnpackedFloat.ofNat, UnpackedFloat.ofInt, hnat]
  exact Unpacked.isWhole_normalize (by rw [Int.natAbs_natCast]; exact hlimit.le)
    (by rw [zpow_zero, mul_one]) .positive

/-- A quotient by one is exact, the first power of ten. -/
theorem div_powerOfTen (h : IsExactly a n) :
    IsExactly (a / getElem Float.exactlyRepresentablePowersOfTen 0 (by decide)) n :=
  of_pack (Unpacked.IsWhole.div_one h)

/-- A whole number that is scaled by no power of ten is a double. -/
theorem ofModel_ofScientific (hlimit : k ≤ wholeLimit) :
    IsExactly (.ofModel (Float.Model.ofScientific k 0)) k := by
  refine of_pack ?_
  rw [UnpackedFloat.ofScientific]
  split
  · rename_i hzero
    subst hzero
    exact .zero .positive
  · rename_i hne
    have hpos : 0 < k := Nat.pos_of_ne_zero hne
    have hsmall : ¬(0 : Int) > 2 ^ Format.binary64.exponentBits := by decide
    have hlarge : ¬(0 : Int) < -(2 ^ Format.binary64.exponentBits + (k.log2 : Int)) := by
      have hbits : (0 : Int) < 2 ^ Format.binary64.exponentBits := by decide
      omega
    rw [if_neg hsmall, if_neg hlarge, if_pos le_rfl]
    -- The number is shifted by 53 digits, and is multiplied by one.
    have hdigits : 2 ^ 52 ≤ k <<< 53 * 10 ^ 0 := by
      rw [Nat.shiftLeft_eq]
      omega
    have hvalue : ((k <<< 53 * 10 ^ 0 : ℕ) : ℚ) * 2 ^ (-53 + 0 : Int) = k := by
      rw [pow_zero, mul_one, Nat.shiftLeft_eq, Nat.cast_mul, mul_assoc]
      norm_num
    exact Unpacked.isWhole_roundWithAccuracy hpos hlimit hdigits hvalue .positive

theorem ofScientific (hlimit : k ≤ wholeLimit) : IsExactly (Float.ofScientific k true 0) k := by
  rw [Float.ofScientific.eq_def]
  split
  · rename_i hfast
    exact (toFloat hfast.1).div_powerOfTen
  · exact ofModel_ofScientific hlimit

end IsExactly

theorem isDigit_of_mem_digits (n : Nat) : ∀ c ∈ digits n, c.isDigit = true :=
  fun _ hc ↦ Nat.isDigit_of_mem_toDigits (by decide) (by decide) hc

/-- The digits of a natural number have no decimal point, and so they are read as that number. -/
theorem readDecimal_digits (n : Nat) : readDecimal (digits n) = Float.ofScientific n true 0 := by
  have hpoint : ∀ c ∈ digits n, decide (c ≠ '.') = true := by
    rintro c hc
    refine decide_eq_true ?_
    rintro rfl
    exact point_not_mem_of_isDigit (isDigit_of_mem_digits n) hc
  have hvalue : (digits n).foldl (fun n c ↦ 10 * n + (c.toNat - '0'.toNat)) 0 = n :=
    Nat.ofDigitChars_toDigits (by decide) (by decide)
  rw [readDecimal, List.takeWhile_eq_self_iff.mpr hpoint, List.dropWhile_eq_nil_iff.mpr hpoint,
    List.drop_nil, List.append_nil, hvalue]
  rfl

/-- The digits of a natural number up to the limit are read exactly. -/
theorem isExactly_readDecimal_digits {n : Nat} (hlimit : n ≤ wholeLimit) :
    IsExactly (readDecimal (digits n)) n := by
  rw [readDecimal_digits]
  exact .ofScientific hlimit

end Reckoner
