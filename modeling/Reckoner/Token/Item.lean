import Reckoner.Number.Decimal
import Reckoner.Token.Basic

/-!
# The meaning of tokens

In a scope, a token means a value, an operator or a bracket. A word means an operator before it
means a constant, and a constant before a variable.
-/

namespace Reckoner

/-- What a token contributes to an expression. A number and a named value differ in what may stand
in front of them. -/
inductive Item where
  | number (value : Float)
  | value (value : Float)
  | operator (op : Operator)
  | opening
  | closing

namespace Token

/-- The meaning of a token, or the fault that it has none. -/
def item (voc : Vocabulary) (scope : Scope) (token : Token) :
    Except (Located ReadingFault) Item :=
  match token.kind with
  | .number text =>
    if text.getLast?.any Char.isDigit then .ok (.number (readDecimal (text.filter (· ≠ ','))))
    else .error ⟨.invalidNumber, token.span⟩
  | .word name =>
    match voc.named? name, scope.value? name with
    | some op, _ => .ok (.operator op)
    | none, some value => .ok (.value value)
    | none, none => .error ⟨.unknownWord, token.span⟩
  | .sign op => .ok (.operator op)
  | .opening => .ok .opening
  | .closing => .ok .closing
  | .extraPoint => .error ⟨.extraDecimalPoint, token.span⟩

end Token

end Reckoner
