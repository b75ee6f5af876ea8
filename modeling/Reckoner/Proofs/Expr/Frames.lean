import Reckoner.Proofs.Expr.Descent

/-!
# What waits for an operand

While an operand is read by descent, the calls that wait for it form a list of frames, the innermost
first. What the line comes to is a function of the frames and of what is still to be read: in front
of an operand it is `awaiting`, behind a value `holding`. Each lexeme changes the frames and leaves
the result as it was. The equations that say so are all that is needed of the reader by descent
wherever it is compared with one that works from left to right.
-/

namespace Reckoner.Descent

/-- A call that waits for an operand. -/
inductive Frame where
  /-- For the right operand of an operator, behind the left one. -/
  | between (op : BinaryOperator) (left : Expr)
  /-- For the operand of an operator that is written before it and begins at a position. -/
  | before (op : UnaryOperator) (order start : Nat)
  /-- For what stands in a bracket. -/
  | bracket

namespace Frame

/-- The order that the operand is read with. -/
def order? : Frame → Option Nat
  | between op _ => some op.order
  | before _ order _ => some order
  | bracket => none

/-- What the operand is made into. -/
def close : Frame → Expr → Expr
  | between op left, expr => .binary op left expr (left.span.hull expr.span)
  | before op _ start, expr => .unary op expr ⟨start, expr.span.stop⟩
  | bracket, expr => expr

/-- What is left to be read after the operand, if it may end there. -/
def leave? : Frame → List Lexeme → Option (List Lexeme)
  | bracket, items => closed? items
  | _, items => some items

end Frame

/-- The context of an operand that some frames wait for. -/
def context (frames : List Frame) : Option Nat := frames.head?.bind Frame.order?

/-- The expression on a line, when reading the operand that some frames wait for came to the result
given. -/
def resume (voc : Vocabulary) : List Frame → Option (Expr × List Lexeme) → Option Expr
  | [], result => result.bind fun read ↦ if read.2.isEmpty then some read.1 else none
  | frame :: frames, result => result.bind fun read ↦ (frame.leave? read.2).bind fun rest ↦
    resume voc frames (readOn voc (context frames) (frame.close read.1) rest)

/-- The expression on a line, where an operand begins. -/
def awaiting (voc : Vocabulary) (frames : List Frame) (items : List Lexeme) : Option Expr :=
  resume voc frames (readOperand voc (context frames) items)

/-- The expression on a line, behind a value. -/
def holding (voc : Vocabulary) (frames : List Frame) (expr : Expr) (items : List Lexeme) :
    Option Expr :=
  resume voc frames (readOn voc (context frames) expr items)

section

variable {voc : Vocabulary} {frames : List Frame} {frame : Frame} {expr : Expr}
  {items : List Lexeme} {span : Span}

@[simp] theorem resume_none : resume voc frames none = none := by
  cases frames <;> rfl

/-- A frame takes the operand that was read and goes on. -/
theorem resume_cons (rest : List Lexeme) :
    resume voc (frame :: frames) (some (expr, rest)) =
      (frame.leave? rest).bind fun rest ↦ holding voc frames (frame.close expr) rest := rfl

/-! ## In front of an operand -/

/-- An operand begins with a primary. -/
theorem awaiting_eq_of_readPrimary_eq_some {rest : List Lexeme}
    (h : readPrimary voc items = some (expr, rest)) :
    awaiting voc frames items = holding voc frames expr rest := by
  rw [awaiting, readOperand_eq_bind, h, Option.bind_some, holding]

/-- What begins with no primary is no operand. -/
theorem awaiting_eq_none_of_readPrimary (h : readPrimary voc items = none) :
    awaiting voc frames items = none := by
  rw [awaiting, readOperand_eq_bind, h, Option.bind_none, resume_none]

/-- A bracket opens a frame of its own. -/
theorem awaiting_opening :
    awaiting voc frames (⟨.opening, span⟩ :: items) = awaiting voc (.bracket :: frames) items := by
  rw [awaiting, readOperand_eq_bind, readPrimary_opening, awaiting]
  change _ = resume voc (.bracket :: frames) (readOperand voc none items)
  cases readOperand voc none items with
  | none => simp
  | some inner =>
    rw [resume_cons]
    change _ = (closed? inner.2).bind fun rest ↦ holding voc frames inner.1 rest
    cases hclosed : closed? inner.2 with
    | none => simp [hclosed]
    | some rest => simp [hclosed, holding]

/-- An operator before its operand opens a frame. -/
theorem awaiting_before {op : UnaryOperator} (hside : op.side = .before) :
    awaiting voc frames (⟨.operator (.beside op), span⟩ :: items) =
      awaiting voc (.before op (orderBefore op items) span.start :: frames) items := by
  rw [awaiting, readOperand_eq_bind, readPrimary_before hside, awaiting]
  change _ = resume voc _ (readOperand voc (some (orderBefore op items)) items)
  cases readOperand voc (some (orderBefore op items)) items with
  | none => simp
  | some inner => rfl

/-! ## Behind a value -/

/-- An operator that does not yield to the context takes the value as its left operand. -/
theorem holding_between {op : BinaryOperator} {start : List Lexeme}
    (h : arrival voc items = .between op start)
    (hyields : (context frames).any op.yieldsTo = false) :
    holding voc frames expr items = awaiting voc (.between op expr :: frames) start := by
  rw [holding, readOn_between h hyields, awaiting]
  change _ = resume voc _ (readOperand voc (some op.order) start)
  cases readOperand voc (some op.order) start with
  | none => simp
  | some right => rfl

/-- An operator after the value that does not yield to the context takes the value. -/
theorem holding_after {op : UnaryOperator} {stop : Nat} {rest : List Lexeme}
    (h : arrival voc items = .after op stop rest)
    (hyields : (context frames).any op.yieldsTo = false) :
    holding voc frames expr items =
      holding voc frames (.unary op expr ⟨expr.span.start, stop⟩) rest := by
  rw [holding, readOn_after h hyields, holding]

/-- A number cannot follow a value. -/
theorem holding_number (value : Float) :
    holding voc frames expr (⟨.number value, span⟩ :: items) = none := by
  rw [holding, readOn_of_number rfl, resume_none]

/-- What follows a value is an operator that yields to the orders given. -/
def Yielding (voc : Vocabulary) (yields : Nat → Bool) (items : List Lexeme) : Prop :=
  (∃ op start, arrival voc items = .between op start ∧ yields = op.yieldsTo) ∨
    ∃ op stop rest, arrival voc items = .after op stop rest ∧ yields = op.yieldsTo

/-- An operator that yields to the context closes the innermost frame. -/
theorem holding_cons_of_yielding {yields : Nat → Bool} (h : Yielding voc yields items)
    (hyields : frame.order?.any yields = true) :
    holding voc (frame :: frames) expr items = holding voc frames (frame.close expr) items := by
  have hon : readOn voc (context (frame :: frames)) expr items = some (expr, items) := by
    rcases h with ⟨op, start, harrival, rfl⟩ | ⟨op, stop, rest, harrival, rfl⟩
    · exact readOn_between_of_yieldsTo harrival hyields
    · exact readOn_after_of_yieldsTo harrival hyields
  rw [holding, hon, resume_cons]
  cases frame with
  | bracket => simp [Frame.order?] at hyields
  | _ => rfl

/-- The frames and the value after those frames are closed that an operator yields to. -/
def settle (yields : Nat → Bool) : List Frame → Expr → List Frame × Expr
  | [], expr => ([], expr)
  | frame :: frames, expr =>
    if frame.order?.any yields then settle yields frames (frame.close expr)
    else (frame :: frames, expr)

theorem settle_cons_of_yields {yields : Nat → Bool} {order : Nat}
    (horder : frame.order? = some order) (h : yields order = true) (frames : List Frame)
    (expr : Expr) : settle yields (frame :: frames) expr = settle yields frames (frame.close expr) := by
  rw [settle, horder, Option.any_some, if_pos h]

theorem settle_cons_of_not {yields : Nat → Bool} {order : Nat}
    (horder : frame.order? = some order) (h : yields order = false) (frames : List Frame)
    (expr : Expr) : settle yields (frame :: frames) expr = (frame :: frames, expr) := by
  rw [settle, horder, Option.any_some, if_neg (Bool.eq_false_iff.mp h)]

/-- Closing the frames that an operator yields to does not change the result. -/
theorem holding_settle {yields : Nat → Bool} (h : Yielding voc yields items)
    (frames : List Frame) (expr : Expr) :
    holding voc (settle yields frames expr).1 (settle yields frames expr).2 items =
      holding voc frames expr items := by
  induction frames generalizing expr with
  | nil => rfl
  | cons frame frames ih =>
    rw [settle]
    split
    · rename_i hyields
      rw [ih, holding_cons_of_yielding h hyields]
    · rfl

/-- Of the frames that are left the operator does not yield to the innermost. -/
theorem context_settle (yields : Nat → Bool) (frames : List Frame) (expr : Expr) :
    (context (settle yields frames expr).1).any yields = false := by
  induction frames generalizing expr with
  | nil => rfl
  | cons frame frames ih =>
    rw [settle]
    split
    · exact ih _
    · rename_i hyields
      simpa [context] using hyields

/-- An operator between two operands closes the frames that it yields to, takes the value as its
left operand and opens a frame. -/
theorem holding_eq_awaiting {op : BinaryOperator} {start : List Lexeme}
    (h : arrival voc items = .between op start) :
    holding voc frames expr items =
      awaiting voc (.between op (settle op.yieldsTo frames expr).2 ::
        (settle op.yieldsTo frames expr).1) start := by
  rw [← holding_settle (.inl ⟨op, start, h, rfl⟩) frames expr,
    holding_between h (context_settle _ frames expr)]

/-- An operator after the value closes the frames that it yields to and takes the value. -/
theorem holding_eq_holding {op : UnaryOperator} {stop : Nat} {rest : List Lexeme}
    (h : arrival voc items = .after op stop rest) :
    holding voc frames expr items =
      holding voc (settle op.yieldsTo frames expr).1
        (.unary op (settle op.yieldsTo frames expr).2
          ⟨(settle op.yieldsTo frames expr).2.span.start, stop⟩) rest := by
  rw [← holding_settle (.inr ⟨op, stop, rest, h, rfl⟩) frames expr,
    holding_after h (context_settle _ frames expr)]

/-! ## At a closing bracket and at the end -/

/-- At the end of a line the innermost frame closes, a bracket like any other. -/
theorem holding_cons_nil :
    holding voc (frame :: frames) expr [] = holding voc frames (frame.close expr) [] := by
  rw [holding, readOn_of_nothing rfl, resume_cons]
  cases frame <;> rfl

/-- The value after all frames are closed. -/
def closeAll (frames : List Frame) (expr : Expr) : Expr :=
  frames.foldl (fun expr frame ↦ frame.close expr) expr

/-- The outermost frame closes last. -/
theorem closeAll_concat (frames : List Frame) (frame : Frame) (expr : Expr) :
    closeAll (frames ++ [frame]) expr = frame.close (closeAll frames expr) := by
  simp [closeAll]

/-- At the end of a line all frames close. -/
theorem holding_nil (frames : List Frame) (expr : Expr) :
    holding voc frames expr [] = some (closeAll frames expr) := by
  induction frames generalizing expr with
  | nil => rw [holding, readOn_of_nothing rfl]; rfl
  | cons frame frames ih => rw [holding_cons_nil, ih]; rfl

/-- The frames and the value after a bracket closes: all frames inside it are closed. -/
def leaveBracket? : List Frame → Expr → Option (List Frame × Expr)
  | [], _ => none
  | .bracket :: frames, expr => some (frames, expr)
  | frame :: frames, expr => leaveBracket? frames (frame.close expr)

/-- A closing bracket closes the frames up to the innermost bracket, and is an error where no
bracket is open. -/
theorem holding_closing (frames : List Frame) (expr : Expr) :
    holding voc frames expr (⟨.closing, span⟩ :: items) =
      (leaveBracket? frames expr).bind fun left ↦ holding voc left.1 left.2 items := by
  induction frames generalizing expr with
  | nil => rw [holding, readOn_of_nothing rfl]; rfl
  | cons frame frames ih =>
    rw [holding, readOn_of_nothing rfl, resume_cons]
    cases frame with
    | bracket => rfl
    | _ => exact ih _

end

end Reckoner.Descent
