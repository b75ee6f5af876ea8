import Reckoner.Number.Decimal

/-!
# The shortest decimal number that denotes a double

A decimal number denotes the double that it rounds to. Among the decimal numbers that denote a
given double there are some with the fewest significant digits, and among these one that is nearest
to it. The search looks at grids of one digit, two digits and so on, and on each grid only at the
two neighbours of the double: if any point of the grid denotes it, one of them does.
-/

namespace Reckoner

namespace Binary

/-- Four times the mantissa, less or more what still rounds to it: the interval of numbers that
round to a double, counted in quarters of its last place. Below a power of two the next double is
only half as far away. -/
def roundingInterval (x : Binary) : Nat × Nat :=
  (if x.mantissa = Nat.pow 2 52 ∧ -1074 < x.exponent then 4 * x.mantissa - 1
    else 4 * x.mantissa - 2, 4 * x.mantissa + 2)

/-- Whether the decimal number `c · 10 ^ g` rounds to the magnitude of a double. The ends of the
interval round to it if its mantissa is even. -/
def denotedBy (x : Binary) (c : Nat) (g : Int) : Bool :=
  let point := c * Nat.pow 10 g.toNat * Nat.pow 2 (2 - x.exponent).toNat
  let scale := Nat.pow 2 (x.exponent - 2).toNat * Nat.pow 10 (-g).toNat
  let low := x.roundingInterval.1 * scale
  let high := x.roundingInterval.2 * scale
  if x.mantissa % 2 = 0 then low ≤ point && point ≤ high else low < point && point < high

/-- The neighbour of the double on the grid of so many significant digits that denotes it, the
nearer one if both do, and the upper one if both are equally near. -/
def onGrid? (x : Binary) (places : Nat) : Option Decimal :=
  let exact := x.toDecimal
  let g := exact.magnitude + 1 - places
  let n := exact.coefficient * Nat.pow 10 (exact.exponent - g).toNat
  let d := Nat.pow 10 (g - exact.exponent).toNat
  let low := n / d
  match x.denotedBy low g, x.denotedBy (low + 1) g with
  | true, true => some ⟨if 2 * (n % d) < d then low else low + 1, g⟩
  | true, false => some ⟨low, g⟩
  | false, true => some ⟨low + 1, g⟩
  | false, false => none

/-- The decimal number with the fewest digits that denotes the magnitude of a double. Seventeen
digits always suffice, so the exact expansion is never reached. -/
def shortest (x : Binary) : Decimal :=
  ((List.range 17).findSome? fun i ↦ x.onGrid? (i + 1)).getD x.toDecimal

end Binary

/-- A double written with the fewest digits that denote it and never with an exponent. -/
def shortestText (value : Float) : List Char :=
  match Binary.ofFloat? value with
  | none =>
    if value.isNaN then "NaN".toList
    else if value < 0 then "-inf".toList else "inf".toList
  | some x =>
    let size :=
      if x.mantissa = 0 then ['0'] else positional x.shortest.significant x.shortest.magnitude
    if x.negative then '-' :: size else size

end Reckoner
