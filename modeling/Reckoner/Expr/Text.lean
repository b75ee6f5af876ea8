import Reckoner.Expr.Basic
import Reckoner.Number.Shortest

/-!
# Expressions in full brackets

The written form of an expression shows its structure: every operation is in brackets, and a named
operator before its operand is followed by the operand in brackets.
-/

namespace Reckoner

namespace Expr

/-- The expression with a bracket around every operation. -/
def text : Expr → List Char
  | literal value _ => shortestText value
  | unary op operand _ =>
    let symbol := op.symbol.toList
    match op.side, op.isInstant with
    | .before, true => '(' :: symbol ++ operand.text ++ [')']
    | .before, false => symbol ++ '(' :: operand.text ++ [')']
    | .after, true => '(' :: operand.text ++ symbol ++ [')']
    | .after, false => '(' :: operand.text ++ ' ' :: symbol ++ [')']
  | binary op left right _ =>
    '(' :: left.text ++ ' ' :: op.symbol.toList ++ ' ' :: right.text ++ [')']

end Expr

end Reckoner
