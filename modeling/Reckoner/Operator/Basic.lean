import Reckoner.Fault

/-!
# Operators

An operator is a symbol, a precedence, the way it attaches to its operands, and a rule that
computes. The symbol is one character, and then the operator is instant: it needs no blank around
it; or it is a word, and then the operator is named. A higher order binds more tightly.
-/

namespace Reckoner

/-- The single character of a symbol that is one character. -/
def single? (symbol : String) : Option Char :=
  match symbol.toList with
  | [c] => some c
  | _ => none

/-- The order that a named operator before an operand takes on when an opening bracket follows it
directly, so that it applies to the bracketed group alone. -/
def bracketOrder : Nat := 5

/-- Which of two neighbouring operators of one order applies first. -/
inductive Associativity where
  | leftToRight
  | rightToLeft
deriving DecidableEq, Repr

/-- The side of its operand on which a unary operator is written. -/
inductive Side where
  | before
  | after
deriving DecidableEq, Repr

/-- What a binary operator is for when no operator is written between two values. -/
inductive Role where
  /-- It joins a value and a following negation. -/
  | addition
  /-- It joins every other pair of neighbours. -/
  | multiplication
  /-- It joins nothing on its own. -/
  | plain
deriving DecidableEq, Repr

namespace Role

/-- The word for a role. -/
def name : Role → String
  | addition => "addition"
  | multiplication => "multiplication"
  | plain => "plain"

end Role

/-- What applying an operator gives: a double, which need not be finite, or a fault. -/
abbrev Computation := Except ComputingFault Float

/-- An operator between two operands. -/
structure BinaryOperator where
  symbol : String
  order : Nat
  associativity : Associativity
  role : Role
  rule : Float → Float → Computation

namespace BinaryOperator

/-- Whether the symbol is one character. -/
def isInstant (op : BinaryOperator) : Bool := (single? op.symbol).isSome

/-- Whether a waiting operator of the given order is applied before this one is read. -/
def yieldsTo (op : BinaryOperator) (order : Nat) : Bool :=
  match op.associativity with
  | .leftToRight => op.order ≤ order
  | .rightToLeft => op.order < order

/-- Operators are told apart by what they look like and how they bind, not by their rules. -/
instance : BEq BinaryOperator where
  beq a b := a.symbol == b.symbol && a.order == b.order && a.associativity == b.associativity
    && a.role == b.role

end BinaryOperator

/-- An operator before or after one operand. -/
structure UnaryOperator where
  symbol : String
  order : Nat
  side : Side
  /-- A negation is joined to a value in front of it by addition, not by multiplication. -/
  negation : Bool
  rule : Float → Computation

namespace UnaryOperator

/-- Whether the symbol is one character. -/
def isInstant (op : UnaryOperator) : Bool := (single? op.symbol).isSome

/-- Whether a waiting operator of the given order is applied before this one is read. -/
def yieldsTo (op : UnaryOperator) (order : Nat) : Bool := op.order ≤ order

/-- Operators are told apart by what they look like and how they bind, not by their rules. -/
instance : BEq UnaryOperator where
  beq a b := a.symbol == b.symbol && a.order == b.order && a.side == b.side
    && a.negation == b.negation

end UnaryOperator

/-- An operator between two operands or beside one. -/
inductive Operator where
  | between (op : BinaryOperator)
  | beside (op : UnaryOperator)

end Reckoner
