import Reckoner.Expr.Basic

/-!
# The value of an expression

Operands are computed from left to right, and the first fault is the fault of the expression. It is
located at the operation that failed, not at the operand that made it fail. An operation whose
result is not finite has failed, and so has a literal that is not.
-/

namespace Reckoner

/-- The result of a computation at a place: a finite value, or the fault there. -/
def settle (computation : Computation) (span : Span) : Except (Located ComputingFault) Float :=
  match computation with
  | .ok value => if value.isFinite then .ok value else .error ⟨.resultTooLarge, span⟩
  | .error cause => .error ⟨cause, span⟩

namespace Expr

/-- The value of an expression, or the first fault in it. -/
def value : Expr → Except (Located ComputingFault) Float
  | literal v span => settle (.ok v) span
  | unary op operand span => do
    let a ← operand.value
    settle (op.rule a) span
  | binary op left right span => do
    let a ← left.value
    let b ← right.value
    settle (op.rule a b) span

end Expr

end Reckoner
