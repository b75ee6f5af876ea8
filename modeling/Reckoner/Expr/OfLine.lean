import Reckoner.Expr.Stacks
import Reckoner.Expr.Value

/-!
# The expression and the value of a line

The tokens of a line are read one after the other; the first that cannot be read is the fault of
the line. A closing bracket that closes nothing is found before the number or word that it ends, and
so it comes first of the two.
-/

namespace Reckoner

/-- The fault of a closing bracket which nothing waits for, directly behind a number or word. -/
def bracketFault? (layer : Nat) (token : Token) : List Token → Option (Located ReadingFault)
  | ⟨.closing, span⟩ :: _ =>
    if layer = 0 ∧ token.isText ∧ span.start = token.span.stop then
      some ⟨.extraClosingBracket, span⟩
    else none
  | _ => none

namespace Stacks

/-- Read tokens. -/
def read (voc : Vocabulary) (scope : Scope) (limit : Option Nat) :
    Stacks → List Token → Building Stacks
  | s, [] => .ok s
  | s, token :: rest =>
    match bracketFault? s.layer token rest with
    | some fault => .error fault
    | none => do
      let item ← token.item voc scope
      let s ← s.step voc limit item token.span
      s.read voc scope limit rest

end Stacks

namespace Vocabulary

/-- The expression on a line, of at most the height given if one is given. -/
def parseWithin (limit : Option Nat) (voc : Vocabulary) (scope : Scope) (line : Line) :
    Building Expr := do
  let s ← Stacks.start.read voc scope limit (Token.ofLine voc line)
  s.finish limit line.length

/-- The expression on a line. -/
def parse (voc : Vocabulary) (scope : Scope) (line : Line) : Building Expr :=
  voc.parseWithin (some heightLimit) scope line

/-- The value of a line, or the fault that it has none. -/
def calculate (voc : Vocabulary) (scope : Scope) (line : Line) :
    Except (Located Fault) Float := do
  let expr ← (voc.parse scope line).mapError (Located.map .reading)
  expr.value.mapError (Located.map .computing)

end Vocabulary

end Reckoner
