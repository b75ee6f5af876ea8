import Reckoner.Expr.OfLine
import Reckoner.Proofs.Fallible

/-!
# Reading by descent

The same language read a second way, by recursion and without stacks. An operand is read in a
context, the order of the operator that waits for it; the outermost operand and what stands in
brackets have no such context. An operand begins with a value, a bracket or an operator before it,
and goes on as long as what follows binds more tightly than the context.

Each function returns what it has read together with the lexemes that are left, and with a proof
that these are fewer.
-/

namespace Reckoner

/-- The meaning of a token and the characters it was read from. -/
structure Lexeme where
  item : Item
  span : Span

/-- The lexeme of a token, or the fault that it has no meaning. -/
def Token.lexeme (voc : Vocabulary) (scope : Scope) (token : Token) : Building Lexeme := do
  let item ← token.item voc scope
  return ⟨item, token.span⟩

/-- The lexemes of tokens are those of the first and of the rest. -/
theorem Token.mapM_lexeme_cons_eq_ok_iff {voc : Vocabulary} {scope : Scope} {token : Token}
    {rest : List Token} {items : List Lexeme} :
    (token :: rest).mapM (Token.lexeme voc scope) = .ok items ↔
      ∃ item items', token.item voc scope = .ok item ∧
        rest.mapM (Token.lexeme voc scope) = .ok items' ∧ items = ⟨item, token.span⟩ :: items' := by
  simp only [List.mapM_cons, Token.lexeme, bind_eq_ok_iff]
  constructor
  · rintro ⟨_, ⟨item, hitem, ⟨⟩⟩, items', hitems', ⟨⟩⟩
    exact ⟨item, items', hitem, hitems', rfl⟩
  · rintro ⟨item, items', hitem, hitems', rfl⟩
    exact ⟨⟨item, token.span⟩, ⟨item, hitem, rfl⟩, items', hitems', rfl⟩

namespace Descent

/-! ## What attaches to what -/

/-- How tightly an operator binds that is written before the lexemes given. A named operator
directly before a bracket binds what is in it before any other operator does. -/
def orderBefore (op : UnaryOperator) : List Lexeme → Nat
  | ⟨.opening, _⟩ :: _ => if op.isInstant then op.order else bracketOrder
  | _ => op.order

/-- How lexemes go on after a value. -/
inductive Arrival where
  /-- Nothing attaches: the line ends, or a bracket closes. -/
  | nothing
  /-- An operator, written or put in, and the lexemes that its right operand begins. -/
  | between (op : BinaryOperator) (operand : List Lexeme)
  /-- An operator after the value, the position where it ends, and the lexemes after it. -/
  | after (op : UnaryOperator) (stop : Nat) (rest : List Lexeme)
  /-- A number, which no operator joins. -/
  | number

/-- How lexemes go on after a value. Where no operator is written between two values the vocabulary
puts one in. -/
def arrival (voc : Vocabulary) : List Lexeme → Arrival
  | [] => .nothing
  | ⟨item, span⟩ :: rest =>
    match item with
    | .closing => .nothing
    | .number _ => .number
    | .operator (.between op) => .between op rest
    | .operator (.beside op) =>
      match op.side with
      | .before => .between (voc.connectorFor op) (⟨item, span⟩ :: rest)
      | .after => .after op span.stop rest
    | .value _ | .opening => .between voc.multiplication (⟨item, span⟩ :: rest)

/-- Before an operator that is written before its operand one is put in. -/
theorem arrival_before {voc : Vocabulary} {op : UnaryOperator} (hside : op.side = .before)
    (span : Span) (rest : List Lexeme) :
    arrival voc (⟨.operator (.beside op), span⟩ :: rest) =
      .between (voc.connectorFor op) (⟨.operator (.beside op), span⟩ :: rest) := by
  simp only [arrival, hside]

/-- An operator that is written after its operand attaches to the value. -/
theorem arrival_after {voc : Vocabulary} {op : UnaryOperator} (hside : op.side = .after)
    (span : Span) (rest : List Lexeme) :
    arrival voc (⟨.operator (.beside op), span⟩ :: rest) = .after op span.stop rest := by
  simp only [arrival, hside]

/-- The operand of an operator that arrives begins at the operator or after it. -/
theorem length_le_of_arrival_eq_between {voc : Vocabulary} {items operand : List Lexeme}
    {op : BinaryOperator} (h : arrival voc items = .between op operand) :
    operand.length ≤ items.length := by
  match items with
  | [] => cases h
  | ⟨item, span⟩ :: rest =>
    simp only [arrival] at h
    split at h <;> (try split at h) <;> cases h <;> simp

/-- An operator after a value is a lexeme of its own. -/
theorem length_lt_of_arrival_eq_after {voc : Vocabulary} {items rest : List Lexeme}
    {op : UnaryOperator} {stop : Nat} (h : arrival voc items = .after op stop rest) :
    rest.length < items.length := by
  match items with
  | [] => cases h
  | ⟨item, span⟩ :: rest =>
    simp only [arrival] at h
    split at h <;> (try split at h) <;> cases h
    exact Nat.lt_succ_self _

/-- What is left when the expression in a bracket ends: a bracket ends where it is closed or where
the line ends. -/
def closed? : List Lexeme → Option (List Lexeme)
  | [] => some []
  | ⟨.closing, _⟩ :: rest => some rest
  | _ => none

theorem length_le_of_closed? {items rest : List Lexeme} (h : closed? items = some rest) :
    rest.length ≤ items.length := by
  simp only [closed?] at h
  split at h <;> cases h <;> simp

/-! ## Operands -/

/-- An expression that was read, and the fewer than `bound` lexemes that are left. -/
structure Reading (bound : Nat) where
  expr : Expr
  rest : List Lexeme
  length_lt : rest.length < bound

mutual

/-- Read a value, a bracket, or an operator before its operand. -/
def primary (voc : Vocabulary) : (items : List Lexeme) → Option (Reading items.length)
  | [] => none
  | ⟨item, span⟩ :: items =>
    match item with
    | .number value | .value value => some ⟨.literal value span, items, Nat.lt_succ_self _⟩
    | .opening => do
      let inner ← operand voc none items
      match h : closed? inner.rest with
      | none => none
      | some rest =>
        some ⟨inner.expr, rest, Nat.lt_succ_of_lt <|
          Nat.lt_of_le_of_lt (length_le_of_closed? h) inner.length_lt⟩
    | .operator (.beside op) =>
      match op.side with
      | .before => do
        let inner ← operand voc (some (orderBefore op items)) items
        some ⟨.unary op inner.expr ⟨span.start, inner.expr.span.stop⟩, inner.rest,
          Nat.lt_succ_of_lt inner.length_lt⟩
      | .after => none
    | .operator (.between _) | .closing => none
termination_by items => (items.length, 0)

/-- Read an operand in a context: a primary, and all that binds more tightly than the context. -/
def operand (voc : Vocabulary) (context : Option Nat) (items : List Lexeme) :
    Option (Reading items.length) := do
  let first ← primary voc items
  let whole ← climb voc context first.expr first.rest
  some ⟨whole.expr, whole.rest, Nat.lt_of_lt_of_le whole.length_lt first.length_lt⟩
termination_by (items.length, 1)
decreasing_by
  · exact Prod.Lex.right _ Nat.zero_lt_one
  · exact Prod.Lex.left _ _ first.length_lt

/-- Go on with a value: absorb the operators that follow until one yields to the context. -/
def climb (voc : Vocabulary) (context : Option Nat) (left : Expr) (items : List Lexeme) :
    Option (Reading (items.length + 1)) :=
  match h : arrival voc items with
  | .nothing => some ⟨left, items, Nat.lt_succ_self _⟩
  | .number => none
  | .between op start =>
    if context.any op.yieldsTo then some ⟨left, items, Nat.lt_succ_self _⟩
    else do
      have hstart := length_le_of_arrival_eq_between h
      let right ← operand voc (some op.order) start
      have hright := right.length_lt
      let whole ← climb voc context
        (.binary op left right.expr (left.span.hull right.expr.span)) right.rest
      some ⟨whole.expr, whole.rest, by have := whole.length_lt; omega⟩
  | .after op stop rest =>
    if context.any op.yieldsTo then some ⟨left, items, Nat.lt_succ_self _⟩
    else do
      have hrest := length_lt_of_arrival_eq_after h
      let whole ← climb voc context (.unary op left ⟨left.span.start, stop⟩) rest
      some ⟨whole.expr, whole.rest, by have := whole.length_lt; omega⟩
termination_by (items.length, 2)
decreasing_by
  all_goals omega

end

/-! ## What was read and what is left -/

/-- The expression and the lexemes that are left, without the proof that they are fewer. -/
def Reading.pair {bound : Nat} (reading : Reading bound) : Expr × List Lexeme :=
  (reading.expr, reading.rest)

/-- A primary and the lexemes that are left. -/
def readPrimary (voc : Vocabulary) (items : List Lexeme) : Option (Expr × List Lexeme) :=
  (primary voc items).map Reading.pair

/-- An operand and the lexemes that are left. -/
def readOperand (voc : Vocabulary) (context : Option Nat) (items : List Lexeme) :
    Option (Expr × List Lexeme) :=
  (operand voc context items).map Reading.pair

/-- A value with all that it absorbs, and the lexemes that are left. -/
def readOn (voc : Vocabulary) (context : Option Nat) (left : Expr) (items : List Lexeme) :
    Option (Expr × List Lexeme) :=
  (climb voc context left items).map Reading.pair

section Equations

variable {voc : Vocabulary} {context : Option Nat} {span : Span} {items : List Lexeme}

theorem readOperand_eq_bind (context : Option Nat) (items : List Lexeme) :
    readOperand voc context items =
      (readPrimary voc items).bind fun first ↦ readOn voc context first.1 first.2 := by
  rw [readOperand, operand, readPrimary]
  cases primary voc items with
  | none => rfl
  | some first =>
    simp only [Option.bind_eq_bind, Option.bind_some, Option.map_some, Reading.pair, readOn]
    cases climb voc context first.expr first.rest <;> rfl

@[simp] theorem readPrimary_nil : readPrimary voc [] = none := by
  simp only [readPrimary, primary, Option.map_none]

@[simp] theorem readPrimary_number (value : Float) :
    readPrimary voc (⟨.number value, span⟩ :: items) = some (.literal value span, items) := by
  simp only [readPrimary, primary, Option.map_some, Reading.pair]

@[simp] theorem readPrimary_value (value : Float) :
    readPrimary voc (⟨.value value, span⟩ :: items) = some (.literal value span, items) := by
  simp only [readPrimary, primary, Option.map_some, Reading.pair]

theorem readPrimary_opening :
    readPrimary voc (⟨.opening, span⟩ :: items) =
      (readOperand voc none items).bind fun inner ↦
        (closed? inner.2).map fun rest ↦ (inner.1, rest) := by
  rw [readPrimary, primary, readOperand]
  cases operand voc none items with
  | none => rfl
  | some inner =>
    simp only [Option.bind_eq_bind, Option.bind_some, Option.map_some, Reading.pair]
    split <;> rename_i h <;> simp only [h, Option.map_none, Option.map_some, Reading.pair]

theorem readPrimary_before {op : UnaryOperator} (hside : op.side = .before) :
    readPrimary voc (⟨.operator (.beside op), span⟩ :: items) =
      (readOperand voc (some (orderBefore op items)) items).map fun inner ↦
        (.unary op inner.1 ⟨span.start, inner.1.span.stop⟩, inner.2) := by
  rw [readPrimary, primary, readOperand]
  simp only [hside]
  cases operand voc (some (orderBefore op items)) items <;> rfl

@[simp] theorem readPrimary_closing :
    readPrimary voc (⟨.closing, span⟩ :: items) = none := by
  simp only [readPrimary, primary, Option.map_none]

@[simp] theorem readPrimary_between (op : BinaryOperator) :
    readPrimary voc (⟨.operator (.between op), span⟩ :: items) = none := by
  simp only [readPrimary, primary, Option.map_none]

theorem readPrimary_after {op : UnaryOperator} (hside : op.side = .after) :
    readPrimary voc (⟨.operator (.beside op), span⟩ :: items) = none := by
  simp only [readPrimary, primary, hside, Option.map_none]

variable {left : Expr}

/-- A value is finished where nothing follows that attaches to it. -/
theorem readOn_of_nothing (h : arrival voc items = .nothing) :
    readOn voc context left items = some (left, items) := by
  rw [readOn, climb]
  split <;> rename_i h' <;> rw [h] at h' <;> cases h'
  rfl

/-- A number cannot follow a value. -/
theorem readOn_of_number (h : arrival voc items = .number) :
    readOn voc context left items = none := by
  rw [readOn, climb]
  split <;> rename_i h' <;> rw [h] at h' <;> cases h'
  rfl

/-- A value is finished where an operator follows that yields to the context. -/
theorem readOn_between_of_yieldsTo {op : BinaryOperator} {start : List Lexeme}
    (h : arrival voc items = .between op start) (hyields : context.any op.yieldsTo = true) :
    readOn voc context left items = some (left, items) := by
  rw [readOn, climb]
  split <;> rename_i h' <;> rw [h] at h' <;> cases h'
  rw [if_pos hyields]
  rfl

/-- An operator between two operands that does not yield to the context is absorbed together with
its right operand. -/
theorem readOn_between {op : BinaryOperator} {start : List Lexeme}
    (h : arrival voc items = .between op start) (hyields : context.any op.yieldsTo = false) :
    readOn voc context left items =
      (readOperand voc (some op.order) start).bind fun right ↦
        readOn voc context (.binary op left right.1 (left.span.hull right.1.span)) right.2 := by
  rw [readOn, climb]
  split <;> rename_i h' <;> rw [h] at h' <;> cases h'
  rw [if_neg (by rw [hyields]; exact Bool.false_ne_true), readOperand]
  cases operand voc (some op.order) start with
  | none => rfl
  | some right =>
    simp only [Option.bind_eq_bind, Option.bind_some, Option.map_some, Reading.pair, readOn]
    cases climb voc context (.binary op left right.expr (left.span.hull right.expr.span))
      right.rest <;> rfl

/-- A value is finished where an operator follows it that yields to the context. -/
theorem readOn_after_of_yieldsTo {op : UnaryOperator} {stop : Nat} {rest : List Lexeme}
    (h : arrival voc items = .after op stop rest) (hyields : context.any op.yieldsTo = true) :
    readOn voc context left items = some (left, items) := by
  rw [readOn, climb]
  split <;> rename_i h' <;> rw [h] at h' <;> cases h'
  rw [if_pos hyields]
  rfl

/-- An operator after a value that does not yield to the context is absorbed. -/
theorem readOn_after {op : UnaryOperator} {stop : Nat} {rest : List Lexeme}
    (h : arrival voc items = .after op stop rest) (hyields : context.any op.yieldsTo = false) :
    readOn voc context left items =
      readOn voc context (.unary op left ⟨left.span.start, stop⟩) rest := by
  rw [readOn, climb]
  split <;> rename_i h' <;> rw [h] at h' <;> cases h'
  rw [if_neg (by rw [hyields]; exact Bool.false_ne_true), readOn]
  cases climb voc context (.unary op left ⟨left.span.start, stop⟩) rest <;> rfl

end Equations

end Descent

/-- The expression on a line, read by descent: one operand without a context, and nothing left. -/
def Vocabulary.descend (voc : Vocabulary) (scope : Scope) (line : Line) : Option Expr :=
  match (Token.ofLine voc line).mapM (Token.lexeme voc scope) with
  | .error _ => none
  | .ok items =>
    match Descent.readOperand voc none items with
    | some (expr, []) => some expr
    | _ => none

end Reckoner
