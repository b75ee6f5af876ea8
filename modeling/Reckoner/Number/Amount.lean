import Reckoner.Number.Decimal

/-!
# Amounts

The form in which the sheet shows a value: at most fifteen significant digits, no zeros at the end
of a fraction, and a power of ten for what is very small or does not fit into fifteen places.
-/

namespace Reckoner

/-- How amounts are laid out. -/
structure AmountLayout where
  /-- The significant digits that are kept. -/
  places : Nat
  /-- The smallest power of ten of a first digit that is written without an exponent. -/
  least : Int
  /-- The fewest digits of an exponent. -/
  exponentDigits : Nat

/-- Amounts keep fifteen digits; those from `0.00001` up to fifteen places before the point are
written out, and an exponent has two digits or more. -/
def amountLayout : AmountLayout := ⟨15, -5, 2⟩

/-- An exponent with its sign and zeros in front up to the fewest digits. -/
def exponentText (exponent : Int) : List Char :=
  let size := digits exponent.natAbs
  (if exponent < 0 then '-' else '+') ::
    (zeros (amountLayout.exponentDigits - size.length) ++ size)

/-- The digits of a number and the power of ten of the first, written out or with an exponent. -/
def layOut (digits : List Char) (magnitude : Int) : List Char :=
  if magnitude < amountLayout.least ∨ amountLayout.places ≤ magnitude then
    digits.take 1 ++ (if digits.length ≤ 1 then [] else '.' :: digits.drop 1)
      ++ 'E' :: exponentText magnitude
  else positional digits magnitude

/-- A value as the sheet shows it. Zero has no sign, and a value that is no finite number is named
in words. -/
def amount (value : Float) : List Char :=
  match Binary.ofFloat? value with
  | none =>
    if value.isNaN then "NaN".toList
    else if value < 0 then "-inf".toList else "inf".toList
  | some x =>
    if x.mantissa = 0 then ['0']
    else
      let rounded := x.toDecimal.round amountLayout.places
      let size := layOut rounded.significant rounded.magnitude
      if x.negative then '-' :: size else size

end Reckoner
