/-!
# Doubles as exact binary numbers

A finite double is a natural number times a power of two, with a sign. Reading a double that way
turns exact questions about it (is it whole, what is left over after a division) into arithmetic
on natural numbers.
-/

namespace Reckoner

/-- A signed number `± mantissa · 2 ^ exponent`. -/
structure Binary where
  negative : Bool
  mantissa : Nat
  exponent : Int
deriving DecidableEq, Repr

namespace Binary

/-- The exact value of a finite double; nothing for an infinity and for what is not a number. -/
def ofFloat? (value : Float) : Option Binary :=
  let bits : Nat := value.toBits.toNat
  let fraction : Nat := bits % Nat.pow 2 52
  let scale : Nat := bits / Nat.pow 2 52 % Nat.pow 2 11
  let negative := bits / Nat.pow 2 63 == 1
  if scale = 2047 then none
  else if scale = 0 then some ⟨negative, fraction, -1074⟩
  else some ⟨negative, fraction + Nat.pow 2 52, (scale : Int) - 1075⟩

/-- The double that is a power of two, for an exponent from `-1074` to `1023`. -/
def powerOfTwo (exponent : Int) : Float :=
  if -1022 ≤ exponent then Float.ofBits (UInt64.ofNat ((exponent + 1023).toNat * Nat.pow 2 52))
  else Float.ofBits (UInt64.ofNat (Nat.pow 2 (exponent + 1074).toNat))

/-- The double of this value, which has to be one: its mantissa is below `2 ^ 53` and its exponent
that of a double, so that neither the conversion nor the product rounds. -/
def toFloat (x : Binary) : Float :=
  let size := Float.ofNat x.mantissa * powerOfTwo x.exponent
  if x.negative then -size else size

/-- Whether the value is a whole number. -/
def isWhole (x : Binary) : Bool :=
  0 ≤ x.exponent || x.mantissa % Nat.pow 2 (-x.exponent).toNat == 0

/-- The whole part of the value, a negative value having the whole part zero. -/
def toNat (x : Binary) : Nat :=
  if x.negative then 0
  else x.mantissa * Nat.pow 2 x.exponent.toNat / Nat.pow 2 (-x.exponent).toNat

/-- What is left of `x` after taking away `y` as often as it fits, with the sign of `x`. On the
finer of the two scales both are whole numbers, so the remainder is exact. -/
def remainder (x y : Binary) : Binary :=
  let scale := min x.exponent y.exponent
  ⟨x.negative,
    x.mantissa * Nat.pow 2 (x.exponent - scale).toNat %
      (y.mantissa * Nat.pow 2 (y.exponent - scale).toNat),
    scale⟩

end Binary

/-- The double that is not a number. -/
def notANumber : Float := 0 / 0

/-- Whether a double equals its whole part: infinities do, what is not a number does not. -/
def isWhole (value : Float) : Bool :=
  match Binary.ofFloat? value with
  | some x => x.isWhole
  | none => !value.isNaN

/-- The exact remainder of a division of doubles, with the sign of the dividend. A dividend is its
own remainder by an infinity; an infinity, or a zero divisor, leaves no number. -/
def remainder (a b : Float) : Float :=
  match Binary.ofFloat? a, Binary.ofFloat? b with
  | some x, some y => if y.mantissa = 0 then notANumber else (x.remainder y).toFloat
  | some _, none => if b.isNaN then notANumber else a
  | none, _ => notANumber

end Reckoner
