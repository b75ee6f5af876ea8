import Reckoner.Number.Amount
import Reckoner.Proofs.Number.Scientific

/-!
# What an amount says

The text of an amount is read here in the usual way: digits, a point with digits behind it, a power
of ten. It denotes a number, and that number is the value rounded to fifteen significant digits,
however the digits are laid out. Since the digits and the power of ten of a number are its own, the
layout is so as well, and two values have one text exactly if they are the same when rounded.
-/

namespace Reckoner

/-- The parts of the text of an amount without its sign. -/
structure AmountText where
  /-- The digits before the point. -/
  whole : List Char
  /-- The digits behind the point, which is written if there are any. -/
  fraction : List Char
  /-- Whether the exponent is negative, and its digits, if it is written. -/
  exponent : Option (Bool × List Char)
deriving DecidableEq, Repr

namespace AmountText

/-- The text in front of an exponent. -/
def mantissaText (parts : AmountText) : List Char :=
  parts.whole ++ if parts.fraction = [] then [] else '.' :: parts.fraction

/-- The text of an exponent with its mark. -/
def powerText (parts : AmountText) : List Char :=
  match parts.exponent with
  | none => []
  | some (negative, size) => 'E' :: (if negative then '-' else '+') :: size

/-- The text with these parts. -/
def text (parts : AmountText) : List Char := parts.mantissaText ++ parts.powerText

/-- The parts of a text. -/
def ofText (text : List Char) : AmountText :=
  let mantissa := text.takeWhile (· ≠ 'E')
  { whole := mantissa.takeWhile (· ≠ '.')
    fraction := (mantissa.dropWhile (· ≠ '.')).drop 1
    exponent := match text.dropWhile (· ≠ 'E') with
      | _ :: sign :: size => some (sign == '-', size)
      | _ => none }

/-- The power of ten that is written. -/
def power (parts : AmountText) : ℤ :=
  match parts.exponent with
  | none => 0
  | some (negative, size) => if negative then -numberOf size else numberOf size

/-- The number that the parts denote. -/
def value (parts : AmountText) : ℚ :=
  numberOf (parts.whole ++ parts.fraction) * 10 ^ (parts.power - parts.fraction.length)

/-- An exponent has two digits, or more that do not begin with a zero, and in front of it there is
one digit before the point, which is no zero. -/
structure IsTidyPower (whole size : List Char) : Prop where
  isDigit : ∀ c ∈ size, c.isDigit = true
  two_le : 2 ≤ size.length
  head_ne : 2 < size.length → size.head? ≠ some '0'
  length_whole : whole.length = 1
  whole_ne : whole ≠ ['0']

/-- All digits are needed: the number begins with a zero only if that stands alone before the point,
and no fraction ends with one. -/
structure IsTidy (parts : AmountText) : Prop where
  isDigit : ∀ c ∈ parts.whole ++ parts.fraction, c.isDigit = true
  whole_ne : parts.whole ≠ []
  head_ne : parts.whole = ['0'] ∨ parts.whole.head? ≠ some '0'
  last_ne : parts.fraction.getLast? ≠ some '0'
  exponent : ∀ negative size, parts.exponent = some (negative, size) →
    IsTidyPower parts.whole size

/-! ## Reading a text -/

section Reading

variable {c : Char} {front : List Char}

/-- What does not contain a character stands in front of it. -/
theorem takeWhile_append_of_not_mem (h : c ∉ front) (rest : List Char) :
    (front ++ rest).takeWhile (· ≠ c) = front ++ rest.takeWhile (· ≠ c) :=
  List.takeWhile_append_of_pos fun _ hd ↦ decide_eq_true (ne_of_mem_of_not_mem hd h)

theorem dropWhile_append_of_not_mem (h : c ∉ front) (rest : List Char) :
    (front ++ rest).dropWhile (· ≠ c) = rest.dropWhile (· ≠ c) :=
  List.dropWhile_append_of_pos fun _ hd ↦ decide_eq_true (ne_of_mem_of_not_mem hd h)

variable {parts : AmountText}

/-- The mark of an exponent is no digit, and no point either. -/
theorem mark_not_mem_mantissaText (h : ∀ c ∈ parts.whole ++ parts.fraction, c.isDigit = true) :
    'E' ∉ parts.mantissaText := by
  intro hmem
  have hmark : 'E' ∉ parts.whole ++ parts.fraction := by
    intro hdigits
    have hdigit := h 'E' hdigits
    cases hdigit
  rw [List.mem_append, not_or] at hmark
  rw [mantissaText, List.mem_append] at hmem
  rcases hmem with hwhole | hfraction
  · exact hmark.1 hwhole
  · split at hfraction
    · cases hfraction
    · exact hmark.2 ((List.mem_cons.mp hfraction).resolve_left (by decide))

/-- The parts of a text are those that it was written with. -/
theorem ofText_text (h : ∀ c ∈ parts.whole ++ parts.fraction, c.isDigit = true) :
    ofText parts.text = parts := by
  have hmark := mark_not_mem_mantissaText h
  have hpoint : '.' ∉ parts.whole :=
    point_not_mem_of_isDigit fun c hc ↦ h c (List.mem_append_left _ hc)
  have hmantissa : parts.text.takeWhile (· ≠ 'E') = parts.mantissaText := by
    rw [text, takeWhile_append_of_not_mem hmark, powerText]
    split
    · exact List.append_nil _
    · exact List.append_nil _
  have hpower : parts.text.dropWhile (· ≠ 'E') = parts.powerText := by
    rw [text, dropWhile_append_of_not_mem hmark, powerText]
    split <;> rfl
  have hwhole : parts.mantissaText.takeWhile (· ≠ '.') = parts.whole := by
    rw [mantissaText, takeWhile_append_of_not_mem hpoint]
    split
    · exact List.append_nil _
    · exact List.append_nil _
  have hfraction : (parts.mantissaText.dropWhile (· ≠ '.')).drop 1 = parts.fraction := by
    rw [mantissaText, dropWhile_append_of_not_mem hpoint]
    split
    · rename_i hnil
      exact hnil.symm
    · rfl
  rw [ofText, hmantissa, hpower, hwhole, hfraction]
  obtain ⟨whole, fraction, exponent⟩ := parts
  rcases exponent with - | ⟨negative, size⟩
  · rfl
  · cases negative <;> rfl

/-- A text that begins with a digit begins with no sign. -/
theorem IsTidy.head?_text_ne (h : parts.IsTidy) : parts.text.head? ≠ some '-' := by
  obtain ⟨c, rest, hwhole⟩ := List.exists_cons_of_ne_nil h.whole_ne
  have hdigit : c.isDigit = true := h.isDigit c (by simp [hwhole])
  rw [text, mantissaText, hwhole]
  rintro ⟨⟩
  cases hdigit

end Reading

/-! ## Laying out digits -/

/-- The digits of an exponent. -/
def sizeOfPower (magnitude : ℤ) : List Char :=
  let size := digits magnitude.natAbs
  zeros (amountLayout.exponentDigits - size.length) ++ size

/-- The parts of digits with a power of ten, which the first of them counts. -/
def withPower (ds : List Char) (magnitude : ℤ) : AmountText :=
  ⟨ds.take 1, ds.drop 1, some (decide (magnitude < 0), sizeOfPower magnitude)⟩

/-- The parts of digits all of which are behind the point. -/
def belowOne (ds : List Char) (magnitude : ℤ) : AmountText :=
  ⟨['0'], zeros (-magnitude - 1).toNat ++ ds, none⟩

/-- The parts of digits with so many of them, or zeros, before the point. -/
def withWhole (ds : List Char) (count : ℕ) : AmountText :=
  ⟨ds.take count ++ zeros (count - ds.length), ds.drop count, none⟩

/-- The parts of the layout of digits. -/
def ofDigits (ds : List Char) (magnitude : ℤ) : AmountText :=
  if magnitude < amountLayout.least ∨ amountLayout.places ≤ magnitude then withPower ds magnitude
  else if magnitude < 0 then belowOne ds magnitude
  else withWhole ds (magnitude.toNat + 1)

variable {ds : List Char} {magnitude : ℤ} {value : ℚ}

/-! ### Their text -/

theorem text_withPower (ds : List Char) (magnitude : ℤ) :
    (withPower ds magnitude).text =
      ds.take 1 ++ (if ds.length ≤ 1 then [] else '.' :: ds.drop 1)
        ++ 'E' :: exponentText magnitude := by
  have hpower : (withPower ds magnitude).powerText = 'E' :: exponentText magnitude := by
    simp only [withPower, powerText, exponentText, sizeOfPower, decide_eq_true_eq]
  rw [text, hpower, mantissaText, withPower]
  simp only [List.drop_eq_nil_iff]

theorem text_belowOne (hne : ds ≠ []) (magnitude : ℤ) :
    (belowOne ds magnitude).text = '0' :: '.' :: zeros (-magnitude - 1).toNat ++ ds := by
  have hfraction : zeros (-magnitude - 1).toNat ++ ds ≠ [] := by
    rw [Ne, List.append_eq_nil_iff, not_and]
    exact fun _ ↦ hne
  rw [text, belowOne, mantissaText, powerText, if_neg hfraction, List.append_nil]
  rfl

theorem text_withWhole (ds : List Char) (count : ℕ) :
    (withWhole ds count).text =
      if ds.length ≤ count then ds ++ zeros (count - ds.length)
      else ds.take count ++ '.' :: ds.drop count := by
  rw [text, withWhole, mantissaText, powerText, List.append_nil]
  split
  · rename_i hnil
    have hle := List.drop_eq_nil_iff.mp hnil
    rw [if_pos hle, List.take_of_length_le hle, List.append_nil]
  · rename_i hcons
    have hlt := mt List.drop_eq_nil_iff.mpr hcons
    have hnone : count - ds.length = 0 := by omega
    rw [if_neg hlt, hnone, zeros, List.replicate_zero, List.append_nil]

/-- Digits are laid out as the text of these parts. -/
theorem text_ofDigits (hne : ds ≠ []) : (ofDigits ds magnitude).text = layOut ds magnitude := by
  rw [layOut, ofDigits, positional]
  split
  · exact text_withPower ds magnitude
  · split
    · exact text_belowOne hne magnitude
    · exact text_withWhole ds (magnitude.toNat + 1)

/-! ### Their value -/

theorem numberOf_sizeOfPower (magnitude : ℤ) :
    numberOf (sizeOfPower magnitude) = magnitude.natAbs := by
  rw [sizeOfPower, numberOf_zeros_append, numberOf_digits]

theorem value_withPower (hne : ds ≠ []) (magnitude : ℤ) :
    (withPower ds magnitude).value = numberOf ds * 10 ^ (magnitude + 1 - ds.length) := by
  have hpos : 0 < ds.length := List.length_pos_iff.mpr hne
  have hpower : (withPower ds magnitude).power = magnitude := by
    simp only [withPower, power, numberOf_sizeOfPower, decide_eq_true_eq]
    omega
  have hplaces : magnitude - (ds.drop 1).length = magnitude + 1 - ds.length := by
    rw [List.length_drop]
    omega
  rw [AmountText.value, hpower, withPower, List.take_append_drop, hplaces]

theorem value_belowOne (ds : List Char) (hmagnitude : magnitude < 0) :
    (belowOne ds magnitude).value = numberOf ds * 10 ^ (magnitude + 1 - ds.length) := by
  have hplaces : (0 : ℤ) - (zeros (-magnitude - 1).toNat ++ ds).length =
      magnitude + 1 - ds.length := by
    rw [List.length_append, length_zeros]
    omega
  rw [AmountText.value, power, belowOne, hplaces]
  congr 2
  exact numberOf_zeros_append ((-magnitude - 1).toNat + 1) ds

theorem value_withWhole (ds : List Char) (count : ℕ) :
    (withWhole ds count).value = numberOf ds * 10 ^ ((count : ℤ) - ds.length) := by
  rw [AmountText.value, power, withWhole]
  rcases le_total ds.length count with hle | hle
  · have hexponent : (count : ℤ) - ds.length = (count - ds.length : ℕ) := by omega
    rw [List.take_of_length_le hle, List.drop_of_length_le hle, List.append_nil,
      numberOf_append_zeros, hexponent, zpow_natCast, List.length_nil, Nat.cast_zero, sub_zero,
      zpow_zero, mul_one]
    push_cast
    rfl
  · have hnone : count - ds.length = 0 := by omega
    have hplaces : (0 : ℤ) - (ds.drop count).length = count - ds.length := by
      rw [List.length_drop]
      omega
    rw [hplaces, hnone, zeros, List.replicate_zero, List.append_nil, List.take_append_drop]

/-- The parts denote the number that the digits and the power of ten make. -/
theorem value_ofDigits (h : IsScientific value ds magnitude) :
    (ofDigits ds magnitude).value = value := by
  rw [ofDigits, h.value_eq]
  split
  · exact value_withPower h.ne_nil magnitude
  · split
    · rename_i hnegative
      exact value_belowOne ds hnegative
    · have hcount : ((magnitude.toNat + 1 : ℕ) : ℤ) = magnitude + 1 := by omega
      rw [value_withWhole, hcount]

/-! ### Their digits -/

theorem head?_take_succ (ds : List Char) (k : ℕ) : (ds.take (k + 1)).head? = ds.head? := by
  rw [List.head?_take, if_neg (Nat.succ_ne_zero k)]

theorem take_succ_ne_nil (hne : ds ≠ []) (k : ℕ) : ds.take (k + 1) ≠ [] := by
  rw [Ne, List.take_eq_nil_iff, not_or]
  exact ⟨Nat.succ_ne_zero k, hne⟩

theorem getLast?_drop_ne (hlast : ds.getLast? ≠ some '0') (k : ℕ) :
    (ds.drop k).getLast? ≠ some '0' := by
  rw [List.getLast?_drop]
  split
  · exact (Option.some_ne_none '0').symm
  · exact hlast

theorem isTidyPower_sizeOfPower (hne : ds ≠ []) (hhead : ds.head? ≠ some '0')
    (hmagnitude : magnitude ≠ 0) : IsTidyPower (ds.take 1) (sizeOfPower magnitude) := by
  obtain ⟨c, rest, rfl⟩ := List.exists_cons_of_ne_nil hne
  have hsize : (sizeOfPower magnitude).length =
      (2 - (digits magnitude.natAbs).length) + (digits magnitude.natAbs).length := by
    rw [sizeOfPower, List.length_append, length_zeros]
    rfl
  refine ⟨?_, by omega, ?_, rfl, ?_⟩
  · intro d hd
    rcases List.mem_append.mp hd with hzero | hdigit
    · exact isDigit_of_mem_zeros d hzero
    · exact isDigit_of_mem_digits _ d hdigit
  · intro hlong
    have hfull : amountLayout.exponentDigits - (digits magnitude.natAbs).length = 0 := by
      change 2 - _ = 0
      omega
    rw [sizeOfPower, hfull, zeros, List.replicate_zero, List.nil_append]
    exact head?_digits (Int.natAbs_ne_zero.mpr hmagnitude)
  · intro hzero
    exact hhead (congrArg List.head? hzero)

theorem isTidy_withPower (h : IsScientific value ds magnitude) (hmagnitude : magnitude ≠ 0) :
    (withPower ds magnitude).IsTidy := by
  refine ⟨?_, take_succ_ne_nil h.ne_nil 0, .inr ?_, getLast?_drop_ne h.last_ne 1, ?_⟩
  · rw [withPower, List.take_append_drop]
    exact h.isDigit
  · rw [withPower, head?_take_succ]
    exact h.head_ne
  · rintro negative size ⟨⟩
    exact isTidyPower_sizeOfPower h.ne_nil h.head_ne hmagnitude

theorem isTidy_belowOne (h : IsScientific value ds magnitude) :
    (belowOne ds magnitude).IsTidy := by
  refine ⟨?_, List.cons_ne_nil _ _, .inl rfl, ?_, by rintro _ _ ⟨⟩⟩
  · intro c hc
    rcases List.mem_append.mp hc with hzero | hc
    · rw [List.mem_singleton.mp hzero]
      rfl
    · rcases List.mem_append.mp hc with hzero | hc
      · exact isDigit_of_mem_zeros c hzero
      · exact h.isDigit c hc
  · rw [belowOne, List.getLast?_append_of_ne_nil _ h.ne_nil]
    exact h.last_ne

theorem isTidy_withWhole (h : IsScientific value ds magnitude) (k : ℕ) :
    (withWhole ds (k + 1)).IsTidy := by
  have hne := take_succ_ne_nil h.ne_nil k
  refine ⟨?_, ?_, .inr ?_, getLast?_drop_ne h.last_ne _, by rintro _ _ ⟨⟩⟩
  · intro c hc
    rcases List.mem_append.mp hc with hc | hc
    · rcases List.mem_append.mp hc with hc | hzero
      · exact h.isDigit c (List.mem_of_mem_take hc)
      · exact isDigit_of_mem_zeros c hzero
    · exact h.isDigit c (List.mem_of_mem_drop hc)
  · exact List.append_ne_nil_of_left_ne_nil hne _
  · rw [withWhole, List.head?_append_of_ne_nil _ hne, head?_take_succ]
    exact h.head_ne

/-- What is laid out has no digits that are not needed. -/
theorem isTidy_ofDigits (h : IsScientific value ds magnitude) :
    (ofDigits ds magnitude).IsTidy := by
  rw [ofDigits]
  split
  · rename_i hfar
    refine isTidy_withPower h ?_
    rintro rfl
    exact absurd hfar (by decide)
  · split
    · exact isTidy_belowOne h
    · exact isTidy_withWhole h magnitude.toNat

/-- An exponent is written for what is very small or has more than fifteen places. -/
theorem exponent_ofDigits_eq_none_iff :
    (ofDigits ds magnitude).exponent = none ↔ -5 ≤ magnitude ∧ magnitude < 15 := by
  rw [ofDigits]
  split
  · rename_i hfar
    change magnitude < -5 ∨ (15 : ℤ) ≤ magnitude at hfar
    exact iff_of_false (Option.some_ne_none _) (by omega)
  · rename_i hnear
    change ¬(magnitude < -5 ∨ (15 : ℤ) ≤ magnitude) at hnear
    have hplaces : -5 ≤ magnitude ∧ magnitude < 15 := by omega
    split
    · exact iff_of_true rfl hplaces
    · exact iff_of_true rfl hplaces

end AmountText

/-! ## Amounts -/

namespace Binary

variable {x y : Binary}

/-- The parts of the amount of a number that is not zero, without its sign. -/
def amountText (x : Binary) : AmountText :=
  let rounded := x.toDecimal.round amountLayout.places
  .ofDigits rounded.significant rounded.magnitude

theorem coefficient_round_toDecimal_ne_zero (hx : x.mantissa ≠ 0) :
    (x.toDecimal.round 15).coefficient ≠ 0 :=
  Decimal.coefficient_round_ne_zero (coefficient_toDecimal_ne_zero hx) (by decide)

theorem isScientific_round (hx : x.mantissa ≠ 0) :
    IsScientific (x.toDecimal.round 15).toRat (x.toDecimal.round 15).significant
      (x.toDecimal.round 15).magnitude :=
  Decimal.isScientific (coefficient_round_toDecimal_ne_zero hx)

theorem isTidy_amountText (hx : x.mantissa ≠ 0) : x.amountText.IsTidy :=
  AmountText.isTidy_ofDigits (isScientific_round hx)

/-- The amount without its sign denotes the rounded magnitude. -/
theorem value_amountText (hx : x.mantissa ≠ 0) :
    x.amountText.value = (x.toDecimal.round 15).toRat :=
  AmountText.value_ofDigits (isScientific_round hx)

theorem ofText_text_amountText (hx : x.mantissa ≠ 0) :
    .ofText x.amountText.text = x.amountText :=
  AmountText.ofText_text (isTidy_amountText hx).isDigit

theorem toRat_eq_zero (hx : x.mantissa = 0) : x.toRat = 0 := by
  rw [← abs_eq_zero, abs_toRat, hx, Nat.cast_zero, zero_mul]

theorem signed_neg_iff {negative : Bool} {size : ℚ} (hsize : 0 < size) :
    (if negative then -size else size) < 0 ↔ negative = true := by
  split
  · rename_i hnegative
    exact iff_of_true (neg_neg_of_pos hsize) hnegative
  · rename_i hpositive
    exact iff_of_false hsize.not_gt hpositive

theorem toRat_neg_iff (hx : x.mantissa ≠ 0) : x.toRat < 0 ↔ x.negative = true := by
  rw [toRat_eq_abs, ← toRat_toDecimal]
  exact signed_neg_iff (Decimal.toRat_pos (coefficient_toDecimal_ne_zero hx))

theorem rounded_neg_iff (hx : x.mantissa ≠ 0) : x.rounded 15 < 0 ↔ x.negative = true :=
  signed_neg_iff (Decimal.toRat_pos (coefficient_round_toDecimal_ne_zero hx))

theorem abs_rounded (hx : x.mantissa ≠ 0) : |x.rounded 15| = (x.toDecimal.round 15).toRat := by
  have hpos := Decimal.toRat_pos (coefficient_round_toDecimal_ne_zero hx)
  rw [rounded]
  split
  · rw [abs_neg, abs_of_pos hpos]
  · exact abs_of_pos hpos

/-- What is not zero is not rounded to zero. -/
theorem rounded_eq_zero_iff : x.rounded 15 = 0 ↔ x.mantissa = 0 := by
  constructor
  · intro hzero
    by_contra hx
    have hpos := Decimal.toRat_pos (coefficient_round_toDecimal_ne_zero hx)
    rw [← abs_rounded hx, hzero, abs_zero] at hpos
    exact hpos.false
  · intro hx
    have hround := x.roundsTo_rounded 15
    rw [toRat_eq_zero hx] at hround
    exact hround.unique .zero

/-- Numbers that are the same when rounded have one sign and one layout. -/
theorem eq_of_rounded_eq (hx : x.mantissa ≠ 0) (hy : y.mantissa ≠ 0)
    (h : x.rounded 15 = y.rounded 15) :
    x.negative = y.negative ∧ x.amountText = y.amountText := by
  have hsign : x.negative = true ↔ y.negative = true := by
    rw [← rounded_neg_iff hx, h, rounded_neg_iff hy]
  have hlayout := isScientific_round hx
  rw [← abs_rounded hx, h, abs_rounded hy] at hlayout
  obtain ⟨hdigits, hmagnitude⟩ := hlayout.unique (isScientific_round hy)
  refine ⟨Bool.eq_iff_iff.mpr hsign, ?_⟩
  change AmountText.ofDigits _ _ = AmountText.ofDigits _ _
  exact congrArg₂ AmountText.ofDigits hdigits hmagnitude

end Binary

/-- The number that a text denotes that may begin with a sign. -/
def signedValue (text : List Char) : ℚ :=
  if text.head? = some '-' then -(AmountText.ofText text.tail).value
  else (AmountText.ofText text).value

section

variable {value : Float} {x : Binary}

theorem amount_eq_zero (hvalue : Binary.ofFloat? value = some x) (hx : x.mantissa = 0) :
    amount value = ['0'] := by
  rw [amount, hvalue]
  exact if_pos hx

theorem amount_eq (hvalue : Binary.ofFloat? value = some x) (hx : x.mantissa ≠ 0) :
    amount value = if x.negative then '-' :: x.amountText.text else x.amountText.text := by
  have htext : x.amountText.text = layOut (x.toDecimal.round 15).significant
      (x.toDecimal.round 15).magnitude :=
    AmountText.text_ofDigits (Binary.isScientific_round hx).ne_nil
  rw [amount, hvalue, htext]
  exact if_neg hx

/-- An amount denotes the rounded value. -/
theorem signedValue_amount (hvalue : Binary.ofFloat? value = some x) :
    signedValue (amount value) = x.rounded 15 := by
  rcases eq_or_ne x.mantissa 0 with hx | hx
  · have hzero : (AmountText.ofText ['0']).value = 0 := zero_mul _
    rw [amount_eq_zero hvalue hx, Binary.rounded_eq_zero_iff.mpr hx]
    exact hzero
  · have hsize : (AmountText.ofText x.amountText.text).value = (x.toDecimal.round 15).toRat := by
      rw [Binary.ofText_text_amountText hx, Binary.value_amountText hx]
    have hhead := (Binary.isTidy_amountText hx).head?_text_ne
    rw [amount_eq hvalue hx, Binary.rounded, ← hsize]
    split
    · rfl
    · exact if_neg hhead

/-- Values that are the same when rounded have one amount. -/
theorem amount_eq_of_rounded_eq {value' : Float} {y : Binary}
    (hvalue : Binary.ofFloat? value = some x) (hvalue' : Binary.ofFloat? value' = some y)
    (h : x.rounded 15 = y.rounded 15) : amount value = amount value' := by
  have hzero : x.mantissa = 0 ↔ y.mantissa = 0 := by
    rw [← Binary.rounded_eq_zero_iff, h, Binary.rounded_eq_zero_iff]
  rcases eq_or_ne x.mantissa 0 with hx | hx
  · rw [amount_eq_zero hvalue hx, amount_eq_zero hvalue' (hzero.mp hx)]
  · have hy : y.mantissa ≠ 0 := mt hzero.mpr hx
    obtain ⟨hsign, htext⟩ := Binary.eq_of_rounded_eq hx hy h
    rw [amount_eq hvalue hx, amount_eq hvalue' hy, hsign, htext]

end

/-- The amount of a finite value that is not zero is the sign of a negative one and a text that
denotes the magnitude, rounded to fifteen significant digits. It has no digits that are not needed,
and an exponent exactly if the first digit counts a power of ten below `-5` or from `15` on. Two
finite values have one amount exactly if they are rounded to one number, and both zeros have `0`. -/
theorem amount_denotes_rounded :
    (∀ value : Float, value.isFinite = true → ∃ x, Binary.ofFloat? value = some x ∧
      (x.mantissa = 0 → amount value = ['0']) ∧
      (x.mantissa ≠ 0 → ∃ rounded ds magnitude size,
        RoundsTo 15 |x.toRat| rounded ∧ IsScientific rounded ds magnitude ∧
        ds.length ≤ 15 ∧ amount value = (if x.toRat < 0 then '-' :: size else size) ∧
        (AmountText.ofText size).text = size ∧ (AmountText.ofText size).IsTidy ∧
        (AmountText.ofText size).value = rounded ∧
        ((AmountText.ofText size).exponent = none ↔ -5 ≤ magnitude ∧ magnitude < 15))) ∧
    ∀ value value' x y, Binary.ofFloat? value = some x → Binary.ofFloat? value' = some y →
      (amount value = amount value' ↔
        ∃ rounded, RoundsTo 15 x.toRat rounded ∧ RoundsTo 15 y.toRat rounded) := by
  constructor
  · intro value hfinite
    rw [← Binary.isSome_ofFloat?] at hfinite
    obtain ⟨x, hvalue⟩ := Option.isSome_iff_exists.mp hfinite
    refine ⟨x, hvalue, amount_eq_zero hvalue, ?_⟩
    intro hx
    have hread := Binary.ofText_text_amountText hx
    refine ⟨(x.toDecimal.round 15).toRat, _, _, x.amountText.text, x.roundsTo_round_toDecimal 15,
      Binary.isScientific_round hx,
      Decimal.length_significant_round_le (Binary.coefficient_toDecimal_ne_zero hx) (by decide),
      ?_, ?_⟩
    · rw [amount_eq hvalue hx]
      simp only [Binary.toRat_neg_iff hx]
    · rw [hread]
      exact ⟨rfl, Binary.isTidy_amountText hx, Binary.value_amountText hx,
        AmountText.exponent_ofDigits_eq_none_iff⟩
  · intro value value' x y hvalue hvalue'
    constructor
    · intro heq
      refine ⟨x.rounded 15, x.roundsTo_rounded 15, ?_⟩
      rw [← signedValue_amount hvalue, heq, signedValue_amount hvalue']
      exact y.roundsTo_rounded 15
    · rintro ⟨rounded, hx, hy⟩
      refine amount_eq_of_rounded_eq hvalue hvalue' ?_
      rw [(x.roundsTo_rounded 15).unique hx, (y.roundsTo_rounded 15).unique hy]

/-- A sum that is off in its last binary digit has the amount of what it should be, and a small
negative value has a sign and an exponent. -/
theorem amount_denotes_rounded_sum :
    (∃ x y, Binary.ofFloat? (0.1 + 0.2) = some x ∧ Binary.ofFloat? 0.3 = some y ∧ x ≠ y ∧
      amount (0.1 + 0.2) = "0.3".toList ∧
      ∃ rounded, RoundsTo 15 x.toRat rounded ∧ RoundsTo 15 y.toRat rounded) ∧
    ∃ x rounded size, Binary.ofFloat? (-2.5e-7) = some x ∧ RoundsTo 15 |x.toRat| rounded ∧
      amount (-2.5e-7) = '-' :: size ∧ size = "2.5E-07".toList ∧
      (AmountText.ofText size).value = rounded := by
  have hsum : Binary.ofFloat? (0.1 + 0.2) = some ⟨false, 5404319552844596, -54⟩ := by
    decide +kernel
  have hexact : Binary.ofFloat? 0.3 = some ⟨false, 5404319552844595, -54⟩ := by decide +kernel
  have hamount : amount (0.1 + 0.2) = "0.3".toList := by decide +kernel
  have hsame : amount (0.1 + 0.2) = amount 0.3 := by decide +kernel
  constructor
  · exact ⟨_, _, hsum, hexact, by decide, hamount,
      (amount_denotes_rounded.2 _ _ _ _ hsum hexact).mp hsame⟩
  · have hsmall : Binary.ofFloat? (-2.5e-7) = some ⟨true, 4722366482869645, -74⟩ := by
      decide +kernel
    have htext : amount (-2.5e-7) = "-2.5E-07".toList := by decide +kernel
    obtain ⟨x, hx, -, hsize⟩ := amount_denotes_rounded.1 (-2.5e-7) (by decide +kernel)
    obtain rfl : x = ⟨true, 4722366482869645, -74⟩ := Option.some.inj (hx.symm.trans hsmall)
    obtain ⟨rounded, _, _, size, hrounded, -, -, hsigned, -, -, hvalue, -⟩ := hsize (by decide)
    rw [if_pos ((Binary.toRat_neg_iff (by decide)).mpr rfl)] at hsigned
    refine ⟨_, rounded, size, hx, hrounded, hsigned, ?_, hvalue⟩
    exact (List.cons.inj (hsigned.symm.trans htext)).2

end Reckoner
