import Reckoner.Operator.Basic

/-!
# Expressions

What a line says: values joined by operators. Each node knows which characters of the line it came
from.
-/

namespace Reckoner

/-- An expression. A number, a constant and a variable are all their values. -/
inductive Expr where
  | literal (value : Float) (span : Span)
  | unary (op : UnaryOperator) (operand : Expr) (span : Span)
  | binary (op : BinaryOperator) (left right : Expr) (span : Span)

namespace Expr

/-- The characters that the expression was read from. -/
def span : Expr → Span
  | literal _ s => s
  | unary _ _ s => s
  | binary _ _ _ s => s

/-- The number of nodes. -/
def nodeCount : Expr → Nat
  | literal _ _ => 1
  | unary _ operand _ => 1 + operand.nodeCount
  | binary _ left right _ => 1 + left.nodeCount + right.nodeCount

/-- The number of nodes on a longest way from the root to a literal. -/
def height : Expr → Nat
  | literal _ _ => 1
  | unary _ operand _ => operand.height + 1
  | binary _ left right _ => max left.height right.height + 1

@[simp] theorem span_literal (v : Float) (s : Span) : (literal v s).span = s := rfl

@[simp] theorem span_unary (op : UnaryOperator) (e : Expr) (s : Span) :
    (unary op e s).span = s := rfl

@[simp] theorem span_binary (op : BinaryOperator) (l r : Expr) (s : Span) :
    (binary op l r s).span = s := rfl

theorem height_pos (e : Expr) : 0 < e.height := by cases e <;> simp [height]

end Expr

end Reckoner
