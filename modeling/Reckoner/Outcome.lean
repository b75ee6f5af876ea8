import Reckoner.Declaration
import Reckoner.Expr.OfLine
import Reckoner.Number.Amount

/-!
# Outcomes of lines

Each line of a sheet is blank, a comment, a declaration or an expression, and comes to an outcome.
The outcome depends on nothing but the line itself, the vocabulary and the scope of the line.
-/

namespace Reckoner

/-- What a line is, by its form. -/
inductive LineKind where
  | blank
  | comment
  | declaration
  | expression
deriving DecidableEq, Repr

/-- The form of a line. A comment begins with two slashes, which blanks may precede. -/
def LineKind.of (line : Line) : LineKind :=
  if line.trim.isEmpty then .blank
  else if "//".toList.isPrefixOf line.trimStart then .comment
  else if Declaration.isHeadOf line then .declaration
  else .expression

/-- What a line came to. -/
inductive Outcome where
  | blank
  | comment
  | value (value : Float)
  | declared (name : String) (value : Float)
  /-- A fault, with the characters of the whole line that it is about. -/
  | fault (message : String) (span : Span)

namespace Outcome

/-- The outcome of an expression that has a value, or a fault at an offset on the line. -/
def ofResult (onValue : Float → Outcome) (offset : Nat) :
    Except (Located Fault) Float → Outcome
  | .ok v => onValue v
  | .error e => fault e.cause.message (e.span.shift offset)

/-- The outcome of a declaration. -/
def ofDeclaration (voc : Vocabulary) (scope : Scope) (line : Line) : Outcome :=
  match Declaration.parse voc.isReserved line with
  | .error e => fault e.cause.message e.span
  | .ok d => ofResult (declared d.name) d.offset (voc.calculate scope d.expression.trimEnd)

/-- The outcome of a line. -/
def ofLine (voc : Vocabulary) (scope : Scope) (line : Line) : Outcome :=
  match LineKind.of line with
  | .blank => blank
  | .comment => comment
  | .declaration => ofDeclaration voc scope line
  | .expression => ofResult value 0 (voc.calculate scope line.trimEnd)

/-- The value that a line came to. -/
def value? : Outcome → Option Float
  | value v => some v
  | declared _ v => some v
  | _ => none

/-- Whether the line has a fault. -/
def isFault : Outcome → Bool
  | fault _ _ => true
  | _ => false

/-- What is shown beside the line. -/
def display? : Outcome → Option String
  | blank => none
  | comment => none
  | value v => some ("= " ++ String.ofList (amount v))
  | declared _ v => some ("= " ++ String.ofList (amount v))
  | fault message _ => some message

end Outcome

end Reckoner
