import Reckoner.Proofs.Expr.Phase
import Reckoner.Proofs.Expr.Stands

/-!
# The stacks follow the reader by descent

After any part of a line the stacks stand for the frames of the reader by descent, either in front
of an operand or behind a value, and each further lexeme leaves it so: the stacks fail where the
reader by descent finds no expression, and otherwise hold what it holds.
-/

namespace Reckoner

open Descent

/-! ## What the stacks stand for -/

/-- The waiting operators when the lexemes given come next: an opening bracket promotes the operator
right before it. -/
def Stacks.ahead (s : Stacks) : List Lexeme → List Waiting
  | ⟨.opening, _⟩ :: _ =>
    match s.last with
    | .before _ => promote s.waiting
    | _ => s.waiting
  | _ => s.waiting

/-- The stacks stand for frames that wait for an operand, which begins behind a position. -/
structure Awaits (frames : List Frame) (s : Stacks) (stop : Nat) (items : List Lexeme) : Prop where
  last_ne : s.last ≠ .value
  stands : ∃ stop' ≤ stop, Stands frames (s.ahead items) s.done s.layer stop'

/-- The stacks stand for frames and a value in front of a position. Operators of closed brackets may
still have to be applied to get the value. -/
inductive Holds (stop : Nat) : List Frame → Expr → Stacks → Prop
  | intro {frames inner : List Frame} {waiting waiting' : List Waiting}
    {done done' : List Completed} {layer start stop' : Nat} {value : Expr}
    (hstands : Stands frames waiting done layer start)
    (hlingers : Lingers layer waiting done start inner waiting' done' stop')
    (hvalue : value.LiesIn stop' stop) :
    Holds stop frames (closeAll inner value) ⟨waiting', value.measured :: done', layer, .value⟩

/-- The stacks stand for the place of the reader by descent from which it comes to a result. -/
inductive Reads (voc : Vocabulary) (s : Stacks) (stop : Nat) (items : List Lexeme) :
    Option Expr → Prop
  | awaiting {frames : List Frame} (h : Awaits frames s stop items) :
    Reads voc s stop items (awaiting voc frames items)
  | holding {frames : List Frame} {expr : Expr} (h : Holds stop frames expr s) :
    Reads voc s stop items (holding voc frames expr items)

/-- Reading a lexeme leads to stacks from which the line comes to the result given, or fails where
there is no result. -/
def LeadsTo (voc : Vocabulary) (stop : Nat) (items : List Lexeme) (result : Option Expr) :
    Building Stacks → Prop
  | .ok s => Reads voc s stop items result
  | .error _ => result = none

namespace Stacks

variable {voc : Vocabulary} {s s' : Stacks} {op : BinaryOperator} {item : Item} {span : Span}
  {items rest : List Lexeme}

/-- Only an opening bracket changes an operator that waits. -/
theorem ahead_cons_of_ne_opening (h : item ≠ .opening) :
    s.ahead (⟨item, span⟩ :: rest) = s.waiting := by
  cases item with
  | opening => exact absurd rfl h
  | _ => rfl

/-- After anything but an operator before its operand nothing is promoted. -/
theorem ahead_of_last (h : ∀ span, s.last ≠ .before span) : s.ahead items = s.waiting := by
  rw [ahead.eq_def]
  split
  · split
    · rename_i span hlast
      exact absurd hlast (h span)
    · rfl
  · rfl

/-- What is put on the stacks for an operator before its operand takes the order that the operator
is written with. -/
theorem ahead_before (op : UnaryOperator) (waiting : List Waiting) (done : List Completed)
    (layer : Nat) (span : Span) (items : List Lexeme) :
    ahead ⟨⟨.beside op, layer, op.order, span⟩ :: waiting, done, layer, .before span⟩ items =
      ⟨.beside op, layer, orderBefore op items, span⟩ :: waiting := by
  match items with
  | [] => rfl
  | ⟨.opening, _⟩ :: _ =>
    simp only [ahead, promote, orderBefore]
    split <;> rfl
  | ⟨.number _, _⟩ :: _ | ⟨.value _, _⟩ :: _ | ⟨.operator _, _⟩ :: _ | ⟨.closing, _⟩ :: _ => rfl

theorem join_of_ne (h : s.last ≠ .value) (op : BinaryOperator) (index : Nat) :
    s.join none op index = .ok s := if_neg h

/-- A lexeme that an operator was put in front of is read as if the operator was written. -/
theorem step_eq_of_join
    (harrival : arrival voc (⟨item, span⟩ :: rest) = .between op (⟨item, span⟩ :: rest))
    (hjoin : s.join none op span.start = .ok s') (hlast : s'.last ≠ .value) :
    s.step voc none item span = s'.step voc none item span := by
  match item with
  | .number _ | .closing | .operator (.between _) => simp [arrival] at harrival
  | .value _ =>
    cases harrival
    simp only [step, hjoin, join_of_ne hlast]
  | .opening =>
    cases harrival
    simp only [step, opening, hjoin, join_of_ne hlast]
  | .operator (.beside op') =>
    cases hside : op'.side with
    | before =>
      rw [arrival_before hside] at harrival
      cases harrival
      simp only [step, hside, before, hjoin, join_of_ne hlast]
    | after =>
      rw [arrival_after hside] at harrival
      cases harrival

end Stacks

section

variable {voc : Vocabulary} {frames : List Frame} {expr : Expr} {s : Stacks} {stop : Nat}
  {item : Item} {span : Span} {items rest : List Lexeme} {result : Option Expr}

/-! ## In front of an operand -/

/-- A value that is read where an operand begins. -/
theorem Awaits.pushValue (h : Awaits frames s stop (⟨item, span⟩ :: rest))
    (hitem : item ≠ .opening) (hstop : stop ≤ span.start) (hspan : span.start ≤ span.stop)
    (value : Float) :
    Holds span.stop frames (.literal value span) (s.pushValue value span) := by
  obtain ⟨stop', hle, hstands⟩ := h.stands
  rw [Stacks.ahead_cons_of_ne_opening hitem] at hstands
  exact .intro hstands .nil ⟨Nat.le_trans hle hstop, hspan, Nat.le_refl _⟩

/-- An operator that is read before its operand. -/
theorem Awaits.before {op : UnaryOperator}
    (h : Awaits frames s stop (⟨.operator (.beside op), span⟩ :: rest))
    (hstop : stop ≤ span.start) (hspan : span.start ≤ span.stop) :
    Awaits (.before op (orderBefore op rest) span.start :: frames)
      ⟨⟨.beside op, s.layer, op.order, span⟩ :: s.waiting, s.done, s.layer, .before span⟩
      span.stop rest := by
  obtain ⟨stop', hle, hstands⟩ := h.stands
  refine ⟨Last.noConfusion, span.stop, Nat.le_refl _, ?_⟩
  rw [Stacks.ahead_before]
  have hentry : Entry stop' (.before op (orderBefore op rest) span.start)
      ⟨.beside op, s.layer, orderBefore op rest, span⟩ [] :=
    .before (Nat.le_trans hle hstop) hspan
  exact .push hstands hentry

/-- A bracket that opens where an operand begins. -/
theorem Awaits.opening (h : Awaits frames s stop (⟨.opening, span⟩ :: rest)) (items : List Lexeme)
    (hstop : stop ≤ span.stop) :
    Awaits (.bracket :: frames)
      ⟨s.ahead (⟨.opening, span⟩ :: rest), s.done, s.layer + 1, .opening⟩ span.stop items := by
  obtain ⟨stop', hle, hstands⟩ := h.stands
  refine ⟨Last.noConfusion, stop', Nat.le_trans hle hstop, ?_⟩
  rw [Stacks.ahead_of_last fun _ ↦ Last.noConfusion]
  exact .bracket hstands

/-- Where an operand begins, each lexeme leads on as the reader by descent goes on. -/
theorem Awaits.step (h : Awaits frames s stop (⟨item, span⟩ :: rest))
    (hstop : stop ≤ span.start) (hspan : span.start ≤ span.stop) :
    LeadsTo voc span.stop rest (awaiting voc frames (⟨item, span⟩ :: rest))
      (s.step voc none item span) := by
  have hlast : s.last ≠ .value := h.last_ne
  match item with
  | .number value =>
    rw [Stacks.step, if_neg hlast, awaiting_eq_of_readPrimary_eq_some (readPrimary_number value)]
    exact .holding (h.pushValue Item.noConfusion hstop hspan value)
  | .value value =>
    rw [Stacks.step, Stacks.join_of_ne hlast,
      awaiting_eq_of_readPrimary_eq_some (readPrimary_value value)]
    exact .holding (h.pushValue Item.noConfusion hstop hspan value)
  | .opening =>
    rw [Stacks.step, Stacks.opening, Stacks.join_of_ne hlast, awaiting_opening]
    exact .awaiting (h.opening rest (Nat.le_trans hstop hspan))
  | .closing =>
    rw [awaiting_eq_none_of_readPrimary readPrimary_closing, Stacks.step, Stacks.closing]
    split
    · rfl
    · split
      · contradiction
      all_goals rfl
  | .operator (.between op) =>
    rw [awaiting_eq_none_of_readPrimary (readPrimary_between op), Stacks.step, Stacks.between]
    split
    · contradiction
    all_goals rfl
  | .operator (.beside op) =>
    cases hside : op.side with
    | before =>
      rw [Stacks.step, awaiting_before hside]
      simp only [hside, Stacks.before, Stacks.join_of_ne hlast]
      exact .awaiting (h.before hstop hspan)
    | after =>
      rw [Stacks.step, awaiting_eq_none_of_readPrimary (readPrimary_after hside)]
      simp only [hside, Stacks.after, if_neg hlast]
      rfl

/-! ## Behind a value -/

/-- An operator that arrives applies what lingers and then what it closes. -/
theorem Holds.yield (h : Holds stop frames expr s) (yields : Nat → Bool) :
    ∃ waiting done stop',
      s.yield none yields =
        .ok ⟨waiting, (Descent.settle yields frames expr).2.measured :: done, s.layer, .value⟩ ∧
      Stands (Descent.settle yields frames expr).1 waiting done s.layer stop' ∧
      (Descent.settle yields frames expr).2.LiesIn stop' stop := by
  cases h with
  | @intro inner waiting waiting' done done' layer start stop' value hstands hlingers hvalue =>
    have hdue : ∀ w : Waiting, layer < w.layer → w.isDue layer yields = true := by
      intro w hw
      simp [Waiting.isDue, hw]
    obtain ⟨hrest, hlies⟩ := hlingers.applyDue hdue hvalue
    obtain ⟨waiting₀, done₀, stop₀, happlied, hstands₀, hlies₀⟩ := hstands.applyDue yields hlies
    refine ⟨waiting₀, done₀, stop₀, ?_, hstands₀, hlies₀⟩
    simp only [Stacks.yield, hrest, happlied]
    rfl

/-- An operator between two operands takes the value as its left operand. -/
theorem Holds.between (h : Holds stop frames expr s) (op : BinaryOperator)
    (hstop : stop ≤ span.start) (hspan : span.start ≤ span.stop) :
    ∃ s', s.between none op span = .ok s' ∧ ∀ items,
      Awaits (.between op (Descent.settle op.yieldsTo frames expr).2 ::
        (Descent.settle op.yieldsTo frames expr).1) s' span.stop items := by
  obtain ⟨waiting, done, stop', hyield, hstands, hlies⟩ := h.yield op.yieldsTo
  have hlast : s.last = .value := by cases h; rfl
  refine ⟨⟨⟨.between op, s.layer, op.order, span⟩ :: waiting,
    (Descent.settle op.yieldsTo frames expr).2.measured :: done, s.layer, .between span⟩, ?_,
    fun items ↦ ?_⟩
  · simp only [Stacks.between, hlast, hyield]
    rfl
  · refine ⟨Last.noConfusion, span.stop, Nat.le_refl _, ?_⟩
    rw [Stacks.ahead_of_last fun _ ↦ Last.noConfusion]
    have hentry : Entry stop' (.between op (Descent.settle op.yieldsTo frames expr).2)
        ⟨.between op, s.layer, op.order, span⟩
        [(Descent.settle op.yieldsTo frames expr).2.measured] :=
      .between (hlies.mono hstop) hspan
    exact .push hstands hentry

/-- An operator after the value takes the value. -/
theorem Holds.after (h : Holds stop frames expr s) (op : UnaryOperator)
    (hstop : stop ≤ span.start) (hspan : span.start ≤ span.stop) :
    ∃ s', s.after none op span = .ok s' ∧
      Holds span.stop (Descent.settle op.yieldsTo frames expr).1
        (.unary op (Descent.settle op.yieldsTo frames expr).2
          ⟨(Descent.settle op.yieldsTo frames expr).2.span.start, span.stop⟩) s' := by
  obtain ⟨waiting, done, stop', hyield, hstands, hlies⟩ := h.yield op.yieldsTo
  have hlast : s.last = .value := by cases h; rfl
  have hordered : (Descent.settle op.yieldsTo frames expr).2.span.stop ≤ span.start :=
    Nat.le_trans hlies.le_stop hstop
  have hwidth : (Descent.settle op.yieldsTo frames expr).2.span.start ≤ span.stop :=
    Nat.le_trans hlies.le (Nat.le_trans hordered hspan)
  refine ⟨_, ?_, .intro hstands .nil ⟨hlies.start_le, hwidth, Nat.le_refl _⟩⟩
  exact Stacks.after_eq hlast hyield rfl hordered

/-- A closing bracket closes all that is inside it. -/
theorem Holds.closing (h : Holds stop frames expr s) (hstop : stop ≤ span.stop) :
    LeadsTo voc span.stop rest (holding voc frames expr (⟨.closing, span⟩ :: rest))
      (s.closing span) := by
  rw [holding_closing]
  cases h with
  | @intro inner waiting waiting' done done' layer start stop' value hstands hlingers hvalue =>
    cases layer with
    | zero =>
      rw [hstands.leaveBracket?_eq_none rfl]
      rfl
    | succ layer =>
      obtain ⟨frames₀, inner₀, waiting₀, done₀, stop₀, hleave, hstands₀, hlingers₀⟩ :=
        hstands.leaveBracket? (hlingers.mono (Nat.le_succ layer)) value
      rw [hleave]
      exact .holding (.intro hstands₀ hlingers₀ (hvalue.mono hstop))

/-- Behind a value, each lexeme leads on as the reader by descent goes on. -/
theorem Holds.step (h : Holds stop frames expr s)
    (hstop : stop ≤ span.start) (hspan : span.start ≤ span.stop) :
    LeadsTo voc span.stop rest (holding voc frames expr (⟨item, span⟩ :: rest))
      (s.step voc none item span) := by
  have hlast : s.last = .value := by cases h; rfl
  have hjoined {op : BinaryOperator}
      (harrival : arrival voc (⟨item, span⟩ :: rest) = .between op (⟨item, span⟩ :: rest)) :
      LeadsTo voc span.stop rest (holding voc frames expr (⟨item, span⟩ :: rest))
        (s.step voc none item span) := by
    have hempty : stop ≤ (Span.before span.start).start := hstop
    obtain ⟨s', hbetween, hawaits⟩ := h.between op hempty (Nat.le_refl _)
    have hjoin : s.join none op span.start = .ok s' := (if_pos hlast).trans hbetween
    rw [holding_eq_awaiting harrival, Stacks.step_eq_of_join harrival hjoin (hawaits []).last_ne]
    exact (hawaits _).step (Nat.le_refl _) hspan
  match item with
  | .number value =>
    rw [holding_number, Stacks.step, if_pos hlast]
    rfl
  | .value value => exact hjoined rfl
  | .opening => exact hjoined rfl
  | .closing => exact h.closing (Nat.le_trans hstop hspan)
  | .operator (.between op) =>
    obtain ⟨s', hbetween, hawaits⟩ := h.between op hstop hspan
    rw [holding_eq_awaiting rfl, Stacks.step, hbetween]
    exact .awaiting (hawaits rest)
  | .operator (.beside op) =>
    cases hside : op.side with
    | before => exact hjoined (arrival_before hside span rest)
    | after =>
      obtain ⟨s', hafter, hholds⟩ := h.after op hstop hspan
      rw [holding_eq_holding (arrival_after hside span rest), Stacks.step]
      simp only [hside, hafter]
      exact .holding hholds

end

end Reckoner
