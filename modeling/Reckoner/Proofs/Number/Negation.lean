import Mathlib
import Reckoner.Operator.Rule

/-!
# The sign of a double

A double is packed into a sign, an exponent and a mantissa, and negating it changes the sign alone.
Rounding does not look at the sign. Hence a product, a quotient and a remainder are negated when
their first operand is, a sum with a negated double is a difference, and a negated double is finite
if the double is. What is not a number has no sign, and all of this holds of it too.
-/

namespace Reckoner

/-! ## Unpacked doubles -/

namespace Unpacked

open Float.Model Float.Model.UnpackedFloat

variable {spec : Format}

theorem sign_neg_neg (s : Sign) : - -s = s := by cases s <;> rfl

theorem sign_neg_mul (s t : Sign) : -s * t = -(s * t) := by cases s <;> cases t <;> rfl

theorem sign_neg_div (s t : Sign) : -s / t = -(s / t) := by cases s <;> cases t <;> rfl

theorem sign_neg_apply (s : Sign) (n : Int) : (-s).apply n = -s.apply n := by
  cases s with
  | positive => rfl
  | negative => exact (Int.neg_neg n).symm

theorem neg_neg (x : UnpackedFloat) : x.neg.neg = x := by
  cases x <;> simp only [UnpackedFloat.neg, sign_neg_neg]

theorem isFinite_neg (x : UnpackedFloat) : x.neg.isFinite = x.isFinite := by
  cases x <;> rfl

/-- A magnitude is rounded alike under both signs. -/
theorem roundWithAccuracy_neg (s : Sign) (m : Nat) (e : Int) (accuracy : Accuracy) :
    roundWithAccuracy spec (-s) m e accuracy = (roundWithAccuracy spec s m e accuracy).neg := by
  simp only [roundWithAccuracy]
  split <;> rfl

theorem mul_neg_left (x y : UnpackedFloat) :
    UnpackedFloat.mul spec x.neg y = (UnpackedFloat.mul spec x y).neg := by
  cases x <;> cases y <;>
    simp only [UnpackedFloat.neg, UnpackedFloat.mul, sign_neg_mul, roundWithAccuracy_neg]

theorem div_neg_left (x y : UnpackedFloat) :
    UnpackedFloat.div spec x.neg y = (UnpackedFloat.div spec x y).neg := by
  cases x <;> cases y <;>
    simp only [UnpackedFloat.neg, UnpackedFloat.div, sign_neg_div, roundWithAccuracy_neg]

theorem add_neg (x y : UnpackedFloat) :
    UnpackedFloat.add spec x y.neg = UnpackedFloat.sub spec x y := by
  cases x <;> cases y <;>
    simp only [UnpackedFloat.neg, UnpackedFloat.add, UnpackedFloat.sub, sign_neg_apply,
      Int.sub_eq_add_neg]

/-! ## Packed doubles -/

/-- A pattern of bits with the other sign denotes the negated double. -/
theorem unpack_packComponents_neg (s : Sign) (e : BitVec spec.exponentBits)
    (m : BitVec spec.mantissaBitsWithoutImplicit) :
    UnpackedFloat.unpack spec (packComponents spec (-s) e m) =
      (UnpackedFloat.unpack spec (packComponents spec s e m)).neg := by
  simp only [UnpackedFloat.unpack, unpackSign_packComponents, unpackExponent_packComponents,
    unpackMantissa_packComponents, Sign.ofBitVec_toBitVec]
  split
  · split <;> rfl
  · split
    · split <;> rfl
    · rfl

/-- A double and the negated double are packed with the same exponent and mantissa, and with
opposite signs. -/
theorem exists_pack_eq (spec : Format) {x : UnpackedFloat} (hx : x ≠ .notANumber) :
    ∃ s e m, UnpackedFloat.pack spec x = packComponents spec s e m ∧
      UnpackedFloat.pack spec x.neg = packComponents spec (-s) e m := by
  cases x with
  | notANumber => exact absurd rfl hx
  | infinity s => exact ⟨s, _, _, rfl, rfl⟩
  | zero s => exact ⟨s, _, _, rfl, rfl⟩
  | finite s m e hm =>
    simp only [UnpackedFloat.neg, UnpackedFloat.pack]
    split
    · exact ⟨s, _, _, rfl, rfl⟩
    · split <;> exact ⟨s, _, _, rfl, rfl⟩

theorem unpack_pack_neg (x : UnpackedFloat) :
    (Float.Model.pack x.neg).unpack = (Float.Model.pack x).unpack.neg := by
  by_cases hx : x = .notANumber
  · subst hx
    rfl
  · obtain ⟨s, e, m, hpack, hneg⟩ := exists_pack_eq .binary64 hx
    simp only [Float.Model.unpack, Float.Model.pack, hpack, hneg]
    exact unpack_packComponents_neg s e m

theorem pack_unpack (x : Float.Model) : Float.Model.pack x.unpack = x := by
  obtain ⟨bits, hvalid⟩ := x
  simp only [Float.Model.pack, Float.Model.unpack, pack_unpack_of_valid hvalid]

/-- A negated double is unpacked to the negated one. -/
theorem unpack_neg (x : Float.Model) : (Float.Model.neg x).unpack = x.unpack.neg := by
  rw [Float.Model.neg, unpack_pack_neg, pack_unpack]

/-- Packing a negated result negates the packed result. -/
theorem pack_neg (x : UnpackedFloat) :
    Float.Model.pack x.neg = Float.Model.neg (Float.Model.pack x) := by
  rw [Float.Model.neg, ← unpack_pack_neg, pack_unpack]

/-- The bits of a pattern as a number. -/
theorem toNat_packComponents (s : Sign) (e : BitVec 11) (m : BitVec 52) :
    (packComponents .binary64 s e m).toNat =
      (s.toBitVec.toNat * 2 ^ 11 + e.toNat) * 2 ^ 52 + m.toNat := by
  rw [packComponents, BitVec.toNat_append, BitVec.toNat_append,
    ← Nat.shiftLeft_add_eq_or_of_lt m.isLt, ← Nat.shiftLeft_add_eq_or_of_lt e.isLt,
    Nat.shiftLeft_eq, Nat.shiftLeft_eq]

end Unpacked

/-! ## Doubles -/

/-- Adding a negated double is subtracting the double. -/
theorem add_neg_eq_sub (a b : Float) : a + -b = a - b := by
  change Float.ofModel (Float.Model.pack _) = Float.ofModel (Float.Model.pack _)
  rw [← Unpacked.add_neg]
  exact congrArg _ (congrArg _ (congrArg _ (Unpacked.unpack_neg b.toModel)))

theorem neg_mul_eq_neg (a b : Float) : -a * b = -(a * b) := by
  change Float.ofModel (Float.Model.pack (Float.Model.UnpackedFloat.mul _
    (Float.Model.neg a.toModel).unpack _)) = Float.ofModel (Float.Model.neg (Float.Model.pack _))
  rw [Unpacked.unpack_neg, Unpacked.mul_neg_left, Unpacked.pack_neg]

theorem neg_div_eq_neg (a b : Float) : -a / b = -(a / b) := by
  change Float.ofModel (Float.Model.pack (Float.Model.UnpackedFloat.div _
    (Float.Model.neg a.toModel).unpack _)) = Float.ofModel (Float.Model.neg (Float.Model.pack _))
  rw [Unpacked.unpack_neg, Unpacked.div_neg_left, Unpacked.pack_neg]

theorem neg_neg_eq (a : Float) : - -a = a := by
  change Float.ofModel (Float.Model.pack (Float.Model.neg a.toModel).unpack.neg) = a
  rw [Unpacked.unpack_neg, Unpacked.neg_neg, Unpacked.pack_unpack]

theorem isFinite_neg (a : Float) : (-a).isFinite = a.isFinite := by
  change (Float.Model.neg a.toModel).unpack.isFinite = a.toModel.unpack.isFinite
  rw [Unpacked.unpack_neg, Unpacked.isFinite_neg]

theorem neg_notANumber : -notANumber = notANumber := by decide +kernel

/-! ## Doubles as binary numbers -/

namespace Binary

/-- The number with the other sign. -/
def flip (x : Binary) : Binary := { x with negative := !x.negative }

theorem toFloat_flip (x : Binary) : x.flip.toFloat = -x.toFloat := by
  obtain ⟨negative, mantissa, exponent⟩ := x
  cases negative with
  | false => rfl
  | true => exact (neg_neg_eq _).symm

theorem remainder_flip (x y : Binary) : x.flip.remainder y = (x.remainder y).flip := rfl

open Float.Model Float.Model.UnpackedFloat in
/-- The value of a double that is packed from a sign, an exponent and a mantissa. -/
theorem ofFloat?_eq {a : Float} {s : Sign} {e : BitVec 11} {m : BitVec 52}
    (h : a.toBits.toBitVec = packComponents .binary64 s e m) :
    ofFloat? a =
      if e.toNat = 2047 then none
      else if e.toNat = 0 then some ⟨s == .negative, m.toNat, -1074⟩
      else some ⟨s == .negative, m.toNat + Nat.pow 2 52, (e.toNat : Int) - 1075⟩ := by
  have hbits : a.toBits.toNat = (s.toBitVec.toNat * 2 ^ 11 + e.toNat) * 2 ^ 52 + m.toNat :=
    (congrArg BitVec.toNat h).trans (Unpacked.toNat_packComponents s e m)
  have he : e.toNat < 2 ^ 11 := e.isLt
  have hm : m.toNat < 2 ^ 52 := m.isLt
  have hfraction : a.toBits.toNat % Nat.pow 2 52 = m.toNat := by
    rw [hbits]
    exact Nat.mul_add_mod_of_lt hm
  have hhigh : a.toBits.toNat / Nat.pow 2 52 = s.toBitVec.toNat * 2 ^ 11 + e.toNat := by
    rw [hbits]
    change _ / 2 ^ 52 = _
    omega
  have hscale : a.toBits.toNat / Nat.pow 2 52 % Nat.pow 2 11 = e.toNat := by
    rw [hhigh]
    exact Nat.mul_add_mod_of_lt he
  have hnegative : (a.toBits.toNat / Nat.pow 2 63 == 1) = (s == .negative) := by
    have hsign : a.toBits.toNat / Nat.pow 2 63 = s.toBitVec.toNat := by
      change _ / 2 ^ 63 = _
      change _ / 2 ^ 52 = _ at hhigh
      omega
    rw [hsign]
    cases s <;> rfl
  simp only [ofFloat?, hfraction, hscale, hnegative]

/-- The value of a negated double. -/
theorem ofFloat?_neg (a : Float) : ofFloat? (-a) = (ofFloat? a).map flip := by
  by_cases hnan : a.toModel.unpack = .notANumber
  · have ha : a = notANumber := by
      change Float.ofModel a.toModel = _
      rw [← Unpacked.pack_unpack a.toModel, hnan]
      decide +kernel
    subst ha
    decide +kernel
  · obtain ⟨s, e, m, hpack, hneg⟩ := Unpacked.exists_pack_eq .binary64 hnan
    have hbits : a.toBits.toBitVec = Float.Model.UnpackedFloat.packComponents .binary64 s e m := by
      rw [← hpack]
      exact congrArg (fun x : Float.Model ↦ x.toBits.toBitVec)
        (Unpacked.pack_unpack a.toModel).symm
    rw [ofFloat?_eq hbits, ofFloat?_eq (a := -a) hneg]
    split
    · rfl
    · split <;> cases s <;> rfl

end Binary

/-- The remainder has the sign of the dividend. -/
theorem remainder_neg (a b : Float) : remainder (-a) b = -remainder a b := by
  simp only [remainder, Binary.ofFloat?_neg]
  cases Binary.ofFloat? a with
  | none => exact neg_notANumber.symm
  | some x =>
    cases Binary.ofFloat? b with
    | none =>
      simp only [Option.map_some]
      split
      · exact neg_notANumber.symm
      · rfl
    | some y =>
      simp only [Option.map_some, Binary.remainder_flip, Binary.toFloat_flip]
      split
      · exact neg_notANumber.symm
      · rfl

end Reckoner
