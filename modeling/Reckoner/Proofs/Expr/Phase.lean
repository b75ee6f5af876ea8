import Reckoner.Proofs.Expr.Frames

/-!
# Phases of a line

Whether a line is accepted does not depend on which operators are on it, only on where they stand.
Of what was read the phase keeps the number of open brackets and whether a value is complete, and a
finite table says what may come next.

The reader by descent accepts what the table accepts: frames matter only by the number of brackets
among them.
-/

namespace Reckoner

/-- What a lexeme is for the form of a line. -/
inductive Terminal where
  | number
  /-- A constant or a variable. -/
  | value
  /-- An operator before its operand. -/
  | before
  /-- An operator between two operands. -/
  | between
  /-- An operator after its operand. -/
  | after
  | opening
  | closing
deriving DecidableEq, Repr

/-- What a unary operator is for the form of a line. -/
def Side.terminal : Side → Terminal
  | .before => .before
  | .after => .after

/-- What an operator is for the form of a line. -/
def Operator.terminal : Operator → Terminal
  | .between _ => .between
  | .beside op => op.side.terminal

/-- What an item is for the form of a line. -/
def Item.terminal : Item → Terminal
  | .number _ => .number
  | .value _ => .value
  | .operator op => op.terminal
  | .opening => .opening
  | .closing => .closing

theorem Item.terminal_of_before {op : UnaryOperator} (hside : op.side = .before) :
    (Item.operator (.beside op)).terminal = .before := by
  rw [terminal, Operator.terminal, hside, Side.terminal]

theorem Item.terminal_of_after {op : UnaryOperator} (hside : op.side = .after) :
    (Item.operator (.beside op)).terminal = .after := by
  rw [terminal, Operator.terminal, hside, Side.terminal]

/-- Whether a value is complete behind the item. -/
def Item.completes : Item → Bool
  | .number _ | .value _ | .closing => true
  | .operator (.beside op) => op.side = .after
  | .operator (.between _) | .opening => false

theorem Item.completes_of_before {op : UnaryOperator} (hside : op.side = .before) :
    (Item.operator (.beside op)).completes = false := by
  simp [completes, hside]

theorem Item.completes_of_after {op : UnaryOperator} (hside : op.side = .after) :
    (Item.operator (.beside op)).completes = true := by
  simp [completes, hside]

/-- What a lexeme is for the form of a line. -/
def Lexeme.terminal (lexeme : Lexeme) : Terminal := lexeme.item.terminal

/-- What the form of the rest of a line depends on. -/
structure Phase where
  /-- The number of open brackets. -/
  layer : Nat
  /-- Whether a value was read last. -/
  complete : Bool
deriving DecidableEq, Repr

namespace Phase

/-- Nothing has been read. -/
def start : Phase := ⟨0, false⟩

/-- The phase after a terminal, if the terminal may stand there. -/
def next? : Phase → Terminal → Option Phase
  | ⟨layer, false⟩, .number => some ⟨layer, true⟩
  | ⟨_, true⟩, .number => none
  | ⟨layer, _⟩, .value => some ⟨layer, true⟩
  | ⟨layer, _⟩, .before => some ⟨layer, false⟩
  | ⟨layer, true⟩, .between => some ⟨layer, false⟩
  | ⟨_, false⟩, .between => none
  | ⟨layer, true⟩, .after => some ⟨layer, true⟩
  | ⟨_, false⟩, .after => none
  | ⟨layer, _⟩, .opening => some ⟨layer + 1, false⟩
  | ⟨layer + 1, true⟩, .closing => some ⟨layer, true⟩
  | ⟨_, _⟩, .closing => none

/-- Whether some terminals may come next and complete the line. -/
def accepts : Phase → List Terminal → Bool
  | phase, [] => phase.complete
  | phase, terminal :: rest => (phase.next? terminal).any fun phase ↦ phase.accepts rest

/-- What begins an operand other than a number may follow a value as it may follow an operator. -/
theorem accepts_of_joins {terminal : Terminal} (rest : List Terminal) (layer : Nat)
    (h : terminal = .value ∨ terminal = .before ∨ terminal = .opening) :
    accepts ⟨layer, true⟩ (terminal :: rest) = accepts ⟨layer, false⟩ (terminal :: rest) := by
  rcases h with rfl | rfl | rfl <;> rfl

/-- A closing bracket cannot come second where no bracket is open: an opening one in front of it
would have nothing in it. -/
theorem accepts_closing_second (complete : Bool) (terminal : Terminal) (rest : List Terminal) :
    accepts ⟨0, complete⟩ (terminal :: .closing :: rest) = false := by
  cases complete <;> cases terminal <;> rfl

end Phase

namespace Descent

/-- The number of brackets that frames stand for. -/
def brackets : List Frame → Nat
  | [] => 0
  | .bracket :: frames => brackets frames + 1
  | _ :: frames => brackets frames

/-- An operator that arrives closes no bracket. -/
theorem brackets_settle (yields : Nat → Bool) (frames : List Frame) (expr : Expr) :
    brackets (settle yields frames expr).1 = brackets frames := by
  induction frames generalizing expr with
  | nil => rfl
  | cons frame frames ih =>
    rw [settle]
    split
    · rename_i hyields
      rw [ih]
      cases frame with
      | bracket => simp [Frame.order?] at hyields
      | _ => rfl
    · rfl

/-- A closing bracket is one bracket less, if one is open. -/
theorem leaveBracket?_eq_none_or (frames : List Frame) (expr : Expr) :
    (leaveBracket? frames expr = none ∧ brackets frames = 0) ∨
      ∃ left, leaveBracket? frames expr = some left ∧ brackets frames = brackets left.1 + 1 := by
  induction frames generalizing expr with
  | nil => exact .inl ⟨rfl, rfl⟩
  | cons frame frames ih =>
    cases frame with
    | bracket => exact .inr ⟨(frames, expr), rfl, rfl⟩
    | _ => exact ih _

section

variable {voc : Vocabulary}

/-- In front of an operand a line is accepted in the phase in which no value is complete. -/
theorem isSome_awaiting_cons {item : Item} {span : Span} {items : List Lexeme}
    (hawaiting : ∀ frames, (awaiting voc frames items).isSome =
      Phase.accepts ⟨brackets frames, false⟩ (items.map Lexeme.terminal))
    (hholding : ∀ frames expr, (holding voc frames expr items).isSome =
      Phase.accepts ⟨brackets frames, true⟩ (items.map Lexeme.terminal)) (frames : List Frame) :
    (awaiting voc frames (⟨item, span⟩ :: items)).isSome =
      Phase.accepts ⟨brackets frames, false⟩ (item.terminal :: items.map Lexeme.terminal) := by
  match item with
  | .number value =>
    rw [awaiting_eq_of_readPrimary_eq_some (readPrimary_number value), hholding]
    rfl
  | .value value =>
    rw [awaiting_eq_of_readPrimary_eq_some (readPrimary_value value), hholding]
    rfl
  | .opening =>
    rw [awaiting_opening, hawaiting]
    rfl
  | .closing =>
    rw [awaiting_eq_none_of_readPrimary readPrimary_closing]
    cases brackets frames <;> rfl
  | .operator (.between op) =>
    rw [awaiting_eq_none_of_readPrimary (readPrimary_between op)]
    rfl
  | .operator (.beside op) =>
    cases hside : op.side with
    | before =>
      rw [awaiting_before hside, hawaiting, Item.terminal_of_before hside]
      rfl
    | after =>
      rw [awaiting_eq_none_of_readPrimary (readPrimary_after hside), Item.terminal_of_after hside]
      rfl

/-- Behind a value a line is accepted in the phase in which one is complete. -/
theorem isSome_holding_cons {item : Item} {span : Span} {items : List Lexeme}
    (hawaiting : ∀ frames, (awaiting voc frames items).isSome =
      Phase.accepts ⟨brackets frames, false⟩ (items.map Lexeme.terminal))
    (hholding : ∀ frames expr, (holding voc frames expr items).isSome =
      Phase.accepts ⟨brackets frames, true⟩ (items.map Lexeme.terminal))
    (frames : List Frame) (expr : Expr) :
    (holding voc frames expr (⟨item, span⟩ :: items)).isSome =
      Phase.accepts ⟨brackets frames, true⟩ (item.terminal :: items.map Lexeme.terminal) := by
  have hjoined {op : BinaryOperator}
      (harrival : arrival voc (⟨item, span⟩ :: items) = .between op (⟨item, span⟩ :: items))
      (hjoins : item.terminal = .value ∨ item.terminal = .before ∨ item.terminal = .opening) :
      (holding voc frames expr (⟨item, span⟩ :: items)).isSome =
        Phase.accepts ⟨brackets frames, true⟩ (item.terminal :: items.map Lexeme.terminal) := by
    rw [holding_eq_awaiting harrival, isSome_awaiting_cons hawaiting hholding,
      Phase.accepts_of_joins _ _ hjoins]
    simp only [brackets, brackets_settle]
  match item with
  | .number value =>
    rw [holding_number]
    rfl
  | .value value => exact hjoined rfl (.inl rfl)
  | .opening => exact hjoined rfl (.inr (.inr rfl))
  | .closing =>
    rw [holding_closing]
    rcases leaveBracket?_eq_none_or frames expr with ⟨hleave, hnone⟩ | ⟨left, hleave, hsome⟩
    · rw [hleave, hnone]
      rfl
    · rw [hleave, hsome, Option.bind_some, hholding]
      rfl
  | .operator (.between op) =>
    rw [holding_eq_awaiting rfl, hawaiting]
    simp only [brackets, brackets_settle]
    rfl
  | .operator (.beside op) =>
    cases hside : op.side with
    | before =>
      exact hjoined (arrival_before hside span items) (.inr (.inl (Item.terminal_of_before hside)))
    | after =>
      rw [holding_eq_holding (arrival_after hside span items), hholding, brackets_settle,
        Item.terminal_of_after hside]
      rfl

/-- The reader by descent accepts what the phases accept. -/
theorem isSome_eq_accepts (items : List Lexeme) :
    (∀ frames, (awaiting voc frames items).isSome =
        Phase.accepts ⟨brackets frames, false⟩ (items.map Lexeme.terminal)) ∧
      ∀ frames expr, (holding voc frames expr items).isSome =
        Phase.accepts ⟨brackets frames, true⟩ (items.map Lexeme.terminal) := by
  induction items with
  | nil =>
    refine ⟨fun frames ↦ ?_, fun frames expr ↦ ?_⟩
    · rw [awaiting_eq_none_of_readPrimary readPrimary_nil]
      rfl
    · rw [holding_nil]
      rfl
  | cons lexeme items ih =>
    exact ⟨isSome_awaiting_cons ih.1 ih.2, isSome_holding_cons ih.1 ih.2⟩

end

end Descent

end Reckoner
