import Reckoner.Number.Binary

/-!
# Exact decimal numbers

Every finite double has a finite decimal expansion, since a half is five tenths. A decimal number
is kept as a whole coefficient and a power of ten; rounding it to a count of significant digits and
laying its digits out are then arithmetic on natural numbers.
-/

namespace Reckoner

/-- The number `coefficient · 10 ^ exponent`. -/
structure Decimal where
  coefficient : Nat
  exponent : Int
deriving DecidableEq, Repr

/-- The exact decimal expansion of the magnitude of a binary number. -/
def Binary.toDecimal (x : Binary) : Decimal :=
  ⟨x.mantissa * Nat.pow 2 x.exponent.toNat * Nat.pow 5 (-x.exponent).toNat, min x.exponent 0⟩

/-- The decimal digits of a natural number. -/
def digits (n : Nat) : List Char := Nat.toDigits 10 n

/-- A quotient rounded to the nearest whole number, a half to the even one. -/
def roundedQuotient (n d : Nat) : Nat :=
  let q := n / d
  match compare (2 * (n % d)) d with
  | .lt => q
  | .gt => q + 1
  | .eq => if q % 2 = 0 then q else q + 1

namespace Decimal

/-- The number rounded to at most so many significant digits, a half to the even digit. -/
def round (places : Nat) (x : Decimal) : Decimal :=
  let excess := (digits x.coefficient).length - places
  ⟨roundedQuotient x.coefficient (Nat.pow 10 excess), x.exponent + excess⟩

/-- The significant digits of the number, without zeros at their end. -/
def significant (x : Decimal) : List Char :=
  ((digits x.coefficient).reverse.dropWhile (· = '0')).reverse

/-- The power of ten that the first digit of the number counts. -/
def magnitude (x : Decimal) : Int := x.exponent + (digits x.coefficient).length - 1

end Decimal

/-- So many zeros. -/
def zeros (count : Nat) : List Char := List.replicate count '0'

/-- The digits of a number, the first of which counts the given power of ten, laid out with zeros
up to the decimal point: after it if the number is small, before it if the number is whole. -/
def positional (digits : List Char) (magnitude : Int) : List Char :=
  if magnitude < 0 then '0' :: '.' :: zeros (-magnitude - 1).toNat ++ digits
  else
    let whole := magnitude.toNat + 1
    if digits.length ≤ whole then digits ++ zeros (whole - digits.length)
    else digits.take whole ++ '.' :: digits.drop whole

/-- The double nearest to a number written with digits and at most one decimal point. -/
def readDecimal (text : List Char) : Float :=
  let whole := text.takeWhile (· ≠ '.')
  let fraction := (text.dropWhile (· ≠ '.')).drop 1
  let value := (whole ++ fraction).foldl (fun n c ↦ 10 * n + (c.toNat - '0'.toNat)) 0
  Float.ofScientific value true fraction.length

end Reckoner
