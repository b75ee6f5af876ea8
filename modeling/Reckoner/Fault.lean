import Reckoner.Text.Span

/-!
# Faults

What can go wrong with a line, by cause. A fault of reading is met while the line is taken apart
and put together as an expression; a fault of computing is met while the expression is computed.
Each cause has one message, and a located fault says where on the line it arose.
-/

namespace Reckoner

/-- Why a line is not an expression. -/
inductive ReadingFault where
  /-- A closing bracket that no opening bracket waits for. -/
  | extraClosingBracket
  /-- A second decimal point in one number. -/
  | extraDecimalPoint
  /-- A number that does not end in a digit. -/
  | invalidNumber
  /-- An operator or a closing bracket where an operation has not begun. -/
  | emptyOperation
  /-- An operator without its operand, or an expression nested too deeply. -/
  | invalidOperation
  /-- A word that names neither an operator nor a value. -/
  | unknownWord
  /-- A number directly after a value. -/
  | missingBinaryOperator
deriving DecidableEq, Repr

namespace ReadingFault

/-- The text shown for the cause. -/
def message : ReadingFault → String
  | extraClosingBracket => "Extra Closing Bracket"
  | extraDecimalPoint => "Extra Decimal Point"
  | invalidNumber => "Invalid Number"
  | emptyOperation => "Empty Operation"
  | invalidOperation => "Invalid Operation"
  | unknownWord => "Unknown Word"
  | missingBinaryOperator => "Missing a Binary Operator"

end ReadingFault

/-- Why an operation has no result. -/
inductive ComputingFault where
  /-- A quotient or remainder with a zero divisor. -/
  | dividedByZero
  /-- An operation on whole numbers applied to another number. -/
  | notAnInteger
  /-- A result that is not a finite number. -/
  | resultTooLarge
deriving DecidableEq, Repr

namespace ComputingFault

/-- The text shown for the cause. -/
def message : ComputingFault → String
  | dividedByZero => "Divided By Zero"
  | notAnInteger => "Not An Integer"
  | resultTooLarge => "Result Too Large"

end ComputingFault

/-- Why a line has no value. -/
inductive Fault where
  | reading (cause : ReadingFault)
  | computing (cause : ComputingFault)
deriving DecidableEq, Repr

namespace Fault

/-- The text shown for the cause. -/
def message : Fault → String
  | reading cause => cause.message
  | computing cause => cause.message

end Fault

/-- A cause together with the characters it is about. -/
structure Located (Cause : Type) where
  cause : Cause
  span : Span
deriving DecidableEq, Repr

namespace Located

variable {Cause Cause' : Type}

/-- Another cause at the same place. -/
def map (f : Cause → Cause') (fault : Located Cause) : Located Cause' :=
  ⟨f fault.cause, fault.span⟩

@[simp] theorem span_map (f : Cause → Cause') (fault : Located Cause) :
    (fault.map f).span = fault.span := rfl

@[simp] theorem cause_map (f : Cause → Cause') (fault : Located Cause) :
    (fault.map f).cause = f fault.cause := rfl

end Located

/-- The message of a fault and its place. -/
def Located.text (fault : Located Fault) : String :=
  fault.cause.message ++ " at " ++ fault.span.text

end Reckoner
