import Reckoner.Scope
import Reckoner.Text.Line

/-!
# Vocabularies

A vocabulary is what the words and signs on a line mean: the operators and the words that no
variable may be named by. It is made from a list of definitions, which are refused unless every
symbol can be recognised on a line, no symbol has two meanings on the same side, and there is
exactly one operator for each way of joining neighbours that have no operator between them.
-/

namespace Reckoner

/-- Definitions of operators and reserved words, in the order in which they were given. -/
structure Definitions where
  binary : List BinaryOperator
  unary : List UnaryOperator
  keywords : List String

/-- Why definitions do not make a vocabulary. -/
inductive VocabularyFault where
  | missingConnector (role : Role)
  | duplicateConnector (role : Role)
  | duplicateSymbol (symbol : String)
  | invalidSymbol (symbol : String)
deriving DecidableEq, Repr

namespace VocabularyFault

/-- The text shown for the fault. -/
def message : VocabularyFault → String
  | missingConnector role =>
    "no binary operator registered for the " ++ role.name ++ " connector"
  | duplicateConnector role =>
    "more than one binary operator registered for the " ++ role.name ++ " connector"
  | duplicateSymbol symbol => "operator symbol '" ++ symbol ++ "' is registered twice"
  | invalidSymbol symbol => "operator symbol '" ++ symbol ++ "' is not a valid symbol or word"

end VocabularyFault

/-- Whether a character has a use on a line that no operator can take over. -/
def isReservedChar (c : Char) : Bool :=
  isBlank c || c.isDigit || c == '(' || c == ')' || c == '.' || c == ','

namespace Definitions

/-- No definitions. -/
def empty : Definitions := ⟨[], [], []⟩

/-- One more operator with two operands. -/
def addBinary (defs : Definitions) (op : BinaryOperator) : Definitions :=
  { defs with binary := defs.binary ++ [op] }

/-- One more operator with one operand. -/
def addUnary (defs : Definitions) (op : UnaryOperator) : Definitions :=
  { defs with unary := defs.unary ++ [op] }

/-- One more reserved word. -/
def addKeyword (defs : Definitions) (word : String) : Definitions :=
  { defs with keywords := defs.keywords ++ [word] }

/-- All symbols, those of the operators with two operands first. -/
def symbols (defs : Definitions) : List String :=
  defs.binary.map BinaryOperator.symbol ++ defs.unary.map UnaryOperator.symbol

/-- The characters that are symbols on their own. -/
def instantChars (defs : Definitions) : List Char := defs.symbols.filterMap single?

/-- Whether a symbol can be recognised: it is not empty, no character of it is reserved, and if it
is a word no character of it is a symbol on its own, which would cut the word. -/
def isRecognisable (defs : Definitions) (symbol : String) : Bool :=
  !symbol.isEmpty && !symbol.toList.any isReservedChar
    && ((single? symbol).isSome || !symbol.toList.any defs.instantChars.contains)

/-- The first symbol that cannot be recognised. -/
def symbolFault? (defs : Definitions) : Option VocabularyFault :=
  (defs.symbols.find? fun symbol ↦ !defs.isRecognisable symbol).map .invalidSymbol

/-- The first operator that takes the role or the symbol of one that was seen before it. -/
def binaryFault? (seen : List BinaryOperator) : List BinaryOperator → Option VocabularyFault
  | [] => none
  | op :: rest =>
    if op.role ≠ .plain ∧ seen.any (·.role = op.role) then some (.duplicateConnector op.role)
    else if seen.any (·.symbol = op.symbol) then some (.duplicateSymbol op.symbol)
    else binaryFault? (op :: seen) rest

/-- The first operator that takes the symbol of one that was seen before it. -/
def unaryFault? (seen : List UnaryOperator) : List UnaryOperator → Option VocabularyFault
  | [] => none
  | op :: rest =>
    if seen.any (·.symbol = op.symbol) then some (.duplicateSymbol op.symbol)
    else unaryFault? (op :: seen) rest

/-- The operator that has a role. -/
def holder? (defs : Definitions) (role : Role) : Option BinaryOperator :=
  defs.binary.find? (·.role = role)

/-- The first role that no operator has. -/
def connectorFault? (defs : Definitions) : Option VocabularyFault :=
  ([Role.addition, Role.multiplication].find? fun role ↦ (defs.holder? role).isNone).map
    .missingConnector

/-- The first fault of the definitions. -/
def fault? (defs : Definitions) : Option VocabularyFault :=
  defs.symbolFault? <|> binaryFault? [] defs.binary <|> unaryFault? [] defs.unary
    <|> defs.connectorFault?

/-- Definitions without a fault have an operator for each role of joining. -/
theorem isSome_holder? {defs : Definitions} (h : defs.fault? = none) {role : Role}
    (hr : role = .addition ∨ role = .multiplication) : (defs.holder? role).isSome := by
  have hc : defs.connectorFault? = none := by
    simp only [fault?, Option.orElse_eq_orElse, Option.orElse_eq_or, Option.or_eq_none_iff] at h
    exact h.2.2.2
  simp only [connectorFault?, Option.map_eq_none_iff, List.find?_eq_none, List.mem_cons,
    List.not_mem_nil, or_false] at hc
  have := hc role hr
  simpa [Option.isSome_iff_ne_none] using this

end Definitions

/-- Definitions without a fault. -/
structure Vocabulary extends Definitions where
  sound : toDefinitions.fault? = none

/-- The vocabulary of some definitions, or the first fault of theirs. -/
def Definitions.build (defs : Definitions) : Except VocabularyFault Vocabulary :=
  match h : defs.fault? with
  | none => .ok ⟨defs, h⟩
  | some fault => .error fault

namespace Vocabulary

/-- The operator with two operands that is this character. -/
def binaryByChar? (voc : Vocabulary) (c : Char) : Option BinaryOperator :=
  voc.binary.find? fun op ↦ single? op.symbol = some c

/-- The operator with one operand that is this character. -/
def unaryByChar? (voc : Vocabulary) (c : Char) : Option UnaryOperator :=
  voc.unary.find? fun op ↦ single? op.symbol = some c

/-- The operator with two operands that is this word. -/
def binaryByName? (voc : Vocabulary) (word : String) : Option BinaryOperator :=
  voc.binary.find? fun op ↦ !op.isInstant && op.symbol = word

/-- The operator with one operand that is this word. -/
def unaryByName? (voc : Vocabulary) (word : String) : Option UnaryOperator :=
  voc.unary.find? fun op ↦ !op.isInstant && op.symbol = word

/-- The operator that is this character, one with two operands before one with one operand. -/
def sign? (voc : Vocabulary) (c : Char) : Option Operator :=
  (voc.binaryByChar? c).map .between <|> (voc.unaryByChar? c).map .beside

/-- The operator that is this word, one with one operand before one with two operands. -/
def named? (voc : Vocabulary) (word : String) : Option Operator :=
  (voc.unaryByName? word).map .beside <|> (voc.binaryByName? word).map .between

/-- Whether no variable may have this name: it is an operator, a reserved word or a constant. -/
def isReserved (voc : Vocabulary) (name : String) : Bool :=
  (voc.binaryByName? name).isSome || (voc.unaryByName? name).isSome
    || voc.keywords.contains name || (constant? name).isSome

/-- The operator that joins a value and a negation. -/
def addition (voc : Vocabulary) : BinaryOperator :=
  (voc.holder? .addition).get (Definitions.isSome_holder? voc.sound (.inl rfl))

/-- The operator that joins two values. -/
def multiplication (voc : Vocabulary) : BinaryOperator :=
  (voc.holder? .multiplication).get (Definitions.isSome_holder? voc.sound (.inr rfl))

/-- The operator that joins a value and an operator before the next one. -/
def connectorFor (voc : Vocabulary) (op : UnaryOperator) : BinaryOperator :=
  if op.negation then voc.addition else voc.multiplication

end Vocabulary

end Reckoner
