import Reckoner.Number.Binary
import Reckoner.Operator.Basic

/-!
# Rules of computation

What the standard operators compute. A rule outside its domain gives what is not a number, or an
infinity; the fault for that is found where the operator is applied. Only division by zero and the
factorial refuse operands of their own.
-/

namespace Reckoner

/-- The double nearest to the ratio of a circle to its diameter. -/
def circleRatio : Float := 3.141592653589793

/-- The double nearest to the base of the natural logarithm. -/
def logarithmBase : Float := 2.718281828459045

/-- The product of the whole numbers from one, taken upwards. -/
def risingProduct : Nat → Float
  | 0 => 1
  | n + 1 => risingProduct n * Float.ofNat (n + 1)

namespace Rule

/-- A rule that never refuses two operands. -/
def total₂ (f : Float → Float → Float) (a b : Float) : Computation := .ok (f a b)

/-- A rule that never refuses an operand. -/
def total (f : Float → Float) (a : Float) : Computation := .ok (f a)

/-- The quotient, if the divisor is not zero. -/
def divide (a b : Float) : Computation :=
  if b == 0 then .error .dividedByZero else .ok (a / b)

/-- The remainder of the quotient towards zero, if the divisor is not zero. -/
def modulo (a b : Float) : Computation :=
  if b == 0 then .error .dividedByZero else .ok (remainder a b)

/-- The factorial of a whole number below 171, the first whose factorial exceeds every double. The
factorial of a negative number is the empty product. -/
def factorial (a : Float) : Computation :=
  if !isWhole a then .error .notAnInteger
  else if 171 ≤ a then .error .resultTooLarge
  else .ok (risingProduct (((Binary.ofFloat? a).map Binary.toNat).getD 0))

/-- A hundredth. -/
def percent (a : Float) : Computation := .ok (a * 0.01)

/-- The angle in radians of an angle in degrees. -/
def degree (a : Float) : Computation := .ok (a * (circleRatio / 180))

end Rule

end Reckoner
