import Mathlib.Order.MinMax
import Reckoner.Proofs.Expr.Height
import Reckoner.Proofs.Expr.Place
import Reckoner.Proofs.Token.Lexemes

/-!
# Places do not matter

Which expression lexemes come to does not depend on where they stand. If the starts and the stops of
their spans are changed in a way that keeps their order, the places of the expression are changed in
the same way, and nothing else.
-/

namespace Reckoner

/-- A change of positions, of those where something starts and of those where something stops, that
keeps their order. -/
structure Relocation where
  start : Nat → Nat
  stop : Nat → Nat
  monotone_start : Monotone start
  monotone_stop : Monotone stop

namespace Relocation

/-- Everything is moved to the right. -/
def shift (offset : Nat) : Relocation where
  start := (· + offset)
  stop := (· + offset)
  monotone_start _ _ h := Nat.add_le_add_right h offset
  monotone_stop _ _ h := Nat.add_le_add_right h offset

/-- Everything is put in one place. -/
def forget : Relocation where
  start _ := 0
  stop _ := 0
  monotone_start _ _ _ := Nat.le_refl 0
  monotone_stop _ _ _ := Nat.le_refl 0

end Relocation

variable {move : Relocation}

/-! ## Spans, lexemes and expressions -/

/-- The span with its ends changed. -/
def Span.relocate (move : Relocation) (span : Span) : Span :=
  ⟨move.start span.start, move.stop span.stop⟩

@[simp] theorem Span.start_relocate (span : Span) :
    (span.relocate move).start = move.start span.start := rfl

@[simp] theorem Span.stop_relocate (span : Span) :
    (span.relocate move).stop = move.stop span.stop := rfl

theorem Span.relocate_hull (a b : Span) :
    (a.hull b).relocate move = (a.relocate move).hull (b.relocate move) :=
  Span.ext move.monotone_start.map_min move.monotone_stop.map_max

/-- The lexeme at another place. -/
def Lexeme.relocate (move : Relocation) (lexeme : Lexeme) : Lexeme :=
  ⟨lexeme.item, lexeme.span.relocate move⟩

@[simp] theorem Lexeme.item_relocate (lexeme : Lexeme) :
    (lexeme.relocate move).item = lexeme.item := rfl

@[simp] theorem Lexeme.span_relocate (lexeme : Lexeme) :
    (lexeme.relocate move).span = lexeme.span.relocate move := rfl

theorem Lexeme.depth?_relocate (depth : Nat) (lexemes : List Lexeme) :
    Lexeme.depth? depth (lexemes.map (Lexeme.relocate move)) = Lexeme.depth? depth lexemes := by
  induction lexemes generalizing depth with
  | nil => rfl
  | cons lexeme lexemes ih =>
    rw [List.map_cons, Lexeme.depth?, Lexeme.depth?, Lexeme.item_relocate]
    exact congrArg _ (funext ih)

namespace Expr

/-- The expression with all its parts at other places. -/
def relocate (move : Relocation) : Expr → Expr
  | literal value span => literal value (span.relocate move)
  | unary op operand span => unary op (operand.relocate move) (span.relocate move)
  | binary op left right span =>
    binary op (left.relocate move) (right.relocate move) (span.relocate move)

/-- The expression further to the right. -/
def shift (offset : Nat) (expr : Expr) : Expr := expr.relocate (.shift offset)

@[simp] theorem span_relocate (expr : Expr) :
    (expr.relocate move).span = expr.span.relocate move := by
  cases expr <;> rfl

@[simp] theorem height_relocate (expr : Expr) : (expr.relocate move).height = expr.height := by
  induction expr with
  | literal => rfl
  | unary op operand span ih => simp only [relocate, height, ih]
  | binary op left right span ihleft ihright => simp only [relocate, height, ihleft, ihright]

end Expr

/-! ## Values -/

/-- The fault at another place. -/
def Located.relocate {Cause : Type} (move : Relocation) (fault : Located Cause) : Located Cause :=
  ⟨fault.cause, fault.span.relocate move⟩

namespace Expr

theorem settle_relocate (computation : Computation) (span : Span) :
    settle computation (span.relocate move) =
      (settle computation span).mapError (Located.relocate move) := by
  cases computation with
  | error cause => rfl
  | ok v =>
    rw [settle, settle]
    split <;> rfl

/-- The value of an expression does not depend on its places, and a fault is moved with them. -/
theorem value_relocate (expr : Expr) :
    (expr.relocate move).value = expr.value.mapError (Located.relocate move) := by
  induction expr with
  | literal v span => exact settle_relocate (.ok v) span
  | unary op operand span ih =>
    simp only [relocate, value, ih, settle_relocate, mapError_bind]
  | binary op left right span ihleft ihright =>
    simp only [relocate, value, ihleft, ihright, settle_relocate, mapError_bind]

/-- The parts of an expression elsewhere are its parts elsewhere. -/
theorem IsPart.relocate {part expr : Expr} (h : part.IsPart expr) :
    (part.relocate move).IsPart (expr.relocate move) := by
  induction h with
  | refl => exact .refl
  | unary _ ih => exact .unary ih
  | left _ ih => exact .left ih
  | right _ ih => exact .right ih

end Expr

namespace Descent

/-! ## Frames -/

/-- The frame with what it holds at other places. -/
def Frame.relocate (move : Relocation) : Frame → Frame
  | between op left => between op (left.relocate move)
  | before op order start => before op order (move.start start)
  | bracket => bracket

@[simp] theorem Frame.order?_relocate (frame : Frame) :
    (frame.relocate move).order? = frame.order? := by
  cases frame <;> rfl

theorem Frame.close_relocate (frame : Frame) (expr : Expr) :
    (frame.relocate move).close (expr.relocate move) = (frame.close expr).relocate move := by
  cases frame with
  | between op left =>
    simp only [relocate, close, Expr.relocate, Expr.span_relocate, Span.relocate_hull]
  | before op order start =>
    simp only [relocate, close, Expr.relocate, Expr.span_relocate]
    rfl
  | bracket => rfl

theorem settle_relocate (yields : Nat → Bool) (frames : List Frame) (expr : Expr) :
    settle yields (frames.map (Frame.relocate move)) (expr.relocate move) =
      ((settle yields frames expr).1.map (Frame.relocate move),
        (settle yields frames expr).2.relocate move) := by
  induction frames generalizing expr with
  | nil => rfl
  | cons frame frames ih =>
    simp only [List.map_cons, settle, Frame.order?_relocate]
    split
    · rw [Frame.close_relocate, ih]
    · rfl

theorem closeAll_relocate (frames : List Frame) (expr : Expr) :
    closeAll (frames.map (Frame.relocate move)) (expr.relocate move) =
      (closeAll frames expr).relocate move := by
  induction frames generalizing expr with
  | nil => rfl
  | cons frame frames ih =>
    have hclose := ih (frame.close expr)
    rw [← Frame.close_relocate] at hclose
    exact hclose

theorem leaveBracket?_relocate (frames : List Frame) (expr : Expr) :
    leaveBracket? (frames.map (Frame.relocate move)) (expr.relocate move) =
      (leaveBracket? frames expr).map fun left ↦
        (left.1.map (Frame.relocate move), left.2.relocate move) := by
  induction frames generalizing expr with
  | nil => rfl
  | cons frame frames ih =>
    have hclose := ih (frame.close expr)
    rw [← Frame.close_relocate] at hclose
    cases frame with
    | bracket => rfl
    | _ => exact hclose

theorem orderBefore_relocate (op : UnaryOperator) (items : List Lexeme) :
    orderBefore op (items.map (Lexeme.relocate move)) = orderBefore op items := by
  match items with
  | [] => rfl
  | ⟨.opening, _⟩ :: _ | ⟨.closing, _⟩ :: _ | ⟨.number _, _⟩ :: _ | ⟨.value _, _⟩ :: _
  | ⟨.operator _, _⟩ :: _ => rfl

namespace Place

/-! ## Steps -/

/-- The place with what was read at other places. -/
def relocate (move : Relocation) : Place → Place
  | awaiting frames => awaiting (frames.map (Frame.relocate move))
  | holding frames expr => holding (frames.map (Frame.relocate move)) (expr.relocate move)

theorem join_relocate (op : BinaryOperator) (frames : List Frame) (expr : Expr) :
    join op (frames.map (Frame.relocate move)) (expr.relocate move) =
      (join op frames expr).relocate move := by
  simp only [join, settle_relocate]
  rfl

theorem attach_relocate (op : UnaryOperator) (stop : Nat) (frames : List Frame) (expr : Expr) :
    attach op (move.stop stop) (frames.map (Frame.relocate move)) (expr.relocate move) =
      (attach op stop frames expr).relocate move := by
  simp only [attach, settle_relocate, Expr.span_relocate]
  rfl

theorem connect_relocate (voc : Vocabulary) (item : Item) (p : Place) :
    (p.relocate move).connect voc item = (p.connect voc item).relocate move := by
  cases p with
  | awaiting frames => rfl
  | holding frames expr =>
    simp only [relocate, connect]
    cases item.connector? voc with
    | some op => exact join_relocate op frames expr
    | none => rfl

theorem read?_relocate (lexeme : Lexeme) (rest : List Lexeme) (p : Place) :
    (p.relocate move).read? (lexeme.relocate move) (rest.map (Lexeme.relocate move)) =
      (p.read? lexeme rest).map (relocate move) := by
  obtain ⟨item, span⟩ := lexeme
  cases p with
  | awaiting frames =>
    match item with
    | .number _ | .value _ | .opening | .closing | .operator (.between _) => rfl
    | .operator (.beside op) =>
      simp only [relocate, read?, Lexeme.relocate, orderBefore_relocate]
      split <;> rfl
  | holding frames expr =>
    match item with
    | .number _ | .value _ | .opening => rfl
    | .closing =>
      simp only [relocate, read?, Lexeme.relocate, leaveBracket?_relocate, Option.map_map]
      rfl
    | .operator (.between op) => exact congrArg some (join_relocate op frames expr)
    | .operator (.beside op) =>
      simp only [relocate, read?, Lexeme.relocate]
      split
      · rfl
      · exact congrArg some (attach_relocate op span.stop frames expr)

theorem step?_relocate (voc : Vocabulary) (lexeme : Lexeme) (rest : List Lexeme) (p : Place) :
    (p.relocate move).step? voc (lexeme.relocate move) (rest.map (Lexeme.relocate move)) =
      (p.step? voc lexeme rest).map (relocate move) := by
  rw [step?, Lexeme.item_relocate, connect_relocate, read?_relocate, step?]

/-- Lexemes at other places come to the same expression at other places. -/
theorem result_relocate (voc : Vocabulary) (items : List Lexeme) (p : Place) :
    (p.relocate move).result voc (items.map (Lexeme.relocate move)) =
      (p.result voc items).map (Expr.relocate move) := by
  induction items generalizing p with
  | nil =>
    cases p with
    | awaiting frames =>
      rw [List.map_nil, relocate, result_awaiting_nil, result_awaiting_nil]
      rfl
    | holding frames expr =>
      rw [List.map_nil, relocate, result_holding_nil, result_holding_nil, closeAll_relocate]
      rfl
  | cons lexeme items ih =>
    rw [List.map_cons, result_cons, result_cons, step?_relocate, Option.bind_map, Option.map_bind]
    exact congrArg _ (funext ih)

end Place

/-- Lexemes at other places are read as the same operand at other places. -/
theorem awaiting_relocate (move : Relocation) (voc : Vocabulary) (items : List Lexeme) :
    awaiting voc [] (items.map (Lexeme.relocate move)) =
      (awaiting voc [] items).map (Expr.relocate move) :=
  Place.result_relocate voc items (.awaiting [])

end Descent

/-! ## Characters further to the right -/

namespace Vocabulary.Lexes

variable {voc : Vocabulary} {scope : Scope} {index : Nat} {line : List Char}
  {lexemes : List Lexeme}

/-- The same characters further to the right come to the same lexemes further to the right. -/
theorem shift (h : voc.Lexes scope index line lexemes) (offset : Nat) :
    voc.Lexes scope (index + offset) line (lexemes.map (Lexeme.relocate (.shift offset))) := by
  induction h with
  | nil => exact .nil
  | @blank index c line lexemes hc _ ih =>
    rw [Nat.add_right_comm] at ih
    exact .blank hc ih
  | @token index text line item belongs lexemes htext hstops _ ih =>
    rw [Nat.add_right_comm] at ih
    have hlexes := Lexes.token htext hstops ih
    rw [Nat.add_right_comm] at hlexes
    exact hlexes

/-- Characters that come to lexemes somewhere come to lexemes everywhere. -/
theorem exists_lexes (h : voc.Lexes scope index line lexemes) (index' : Nat) :
    ∃ others, voc.Lexes scope index' line others := by
  induction h generalizing index' with
  | nil => exact ⟨[], .nil⟩
  | blank hc _ ih =>
    obtain ⟨others, hothers⟩ := ih (index' + 1)
    exact ⟨others, .blank hc hothers⟩
  | @token index text line item belongs lexemes htext hstops _ ih =>
    obtain ⟨others, hothers⟩ := ih (index' + text.length)
    exact ⟨_, .token htext hstops hothers⟩

/-- Characters somewhere on a line come to what they come to at its beginning, so much further to
the right. -/
theorem exists_eq_map_shift (h : voc.Lexes scope index line lexemes) :
    ∃ others, voc.Lexes scope 0 line others ∧
      lexemes = others.map (Lexeme.relocate (.shift index)) := by
  obtain ⟨others, hothers⟩ := h.exists_lexes 0
  have hshift := hothers.shift index
  rw [Nat.zero_add] at hshift
  exact ⟨others, hothers, h.unique hshift⟩

/-- Characters somewhere on a line that are read as an operand are read as the same operand at its
beginning. -/
theorem exists_awaiting (h : voc.Lexes scope index line lexemes) {expr : Expr}
    (hresult : Descent.awaiting voc [] lexemes = some expr) :
    ∃ others tree, voc.Lexes scope 0 line others ∧ Descent.awaiting voc [] others = some tree ∧
      expr = tree.shift index := by
  obtain ⟨others, hothers, rfl⟩ := h.exists_eq_map_shift
  rw [Descent.awaiting_relocate] at hresult
  obtain ⟨tree, htree, rfl⟩ := Option.map_eq_some_iff.mp hresult
  exact ⟨others, tree, hothers, htree, rfl⟩

end Vocabulary.Lexes

end Reckoner
