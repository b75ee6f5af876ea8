import Reckoner.Proofs.Expr.Depth
import Reckoner.Proofs.Expr.Frames
import Reckoner.Proofs.Expr.Phase

/-!
# Stacks that stand for frames

The two stacks hold what the calls of the reader by descent hold: a waiting operator, with the
finished left operand if it has one, stands for the call that waits for its operand. Brackets stand
for nothing but a layer. Where a bracket has closed, its operators may still wait; they are applied
before anything else is, so they linger on top of the stacks that stand for the frames.

All that is held has its place on the line, one after the other, and the depth beside each finished
expression is its height. Therefore no operator finds its operands missing or in the wrong order
when it is applied.
-/

namespace Reckoner

open Descent

/-- An expression is read from characters between two positions. -/
structure Expr.LiesIn (start stop : Nat) (expr : Expr) : Prop where
  start_le : start ≤ expr.span.start
  le : expr.span.start ≤ expr.span.stop
  le_stop : expr.span.stop ≤ stop

theorem Expr.LiesIn.mono {expr : Expr} {start stop stop' : Nat} (h : expr.LiesIn start stop)
    (hle : stop ≤ stop') : expr.LiesIn start stop' :=
  ⟨h.start_le, h.le, Nat.le_trans h.le_stop hle⟩

/-- An operator that is applied takes its operands from the finished expressions, on the sides of it
where they are to stand, and makes a new expression of them. -/
inductive Waiting.Takes : Waiting → List Completed → Expr → List Completed → Prop
  | between {op : BinaryOperator} {layer order : Nat} {span : Span} {left right : Expr}
    {rest : List Completed} (hleft : left.span.stop ≤ span.start) (hspan : span.start ≤ span.stop)
    (hright : span.stop ≤ right.span.start) :
    Takes ⟨.between op, layer, order, span⟩ (right.measured :: left.measured :: rest)
      (.binary op left right (left.span.hull right.span)) rest
  | before {op : UnaryOperator} {layer order : Nat} {span : Span} {operand : Expr}
    {rest : List Completed} (hspan : span.start ≤ span.stop)
    (hoperand : span.stop ≤ operand.span.start) :
    Takes ⟨.beside op, layer, order, span⟩ (operand.measured :: rest)
      (.unary op operand ⟨span.start, operand.span.stop⟩) rest

/-- A waiting operator and the expressions finished below it that stand for a frame, behind a
position. -/
inductive Entry (start : Nat) : Frame → Waiting → List Completed → Prop
  | between {op : BinaryOperator} {left : Expr} {layer : Nat} {span : Span}
    (hleft : left.LiesIn start span.start) (hspan : span.start ≤ span.stop) :
    Entry start (.between op left) ⟨.between op, layer, op.order, span⟩ [left.measured]
  | before {op : UnaryOperator} {order layer : Nat} {span : Span}
    (hstart : start ≤ span.start) (hspan : span.start ≤ span.stop) :
    Entry start (.before op order span.start) ⟨.beside op, layer, order, span⟩ []

/-- The waiting operators and the finished expressions stand for frames, with the number of open
brackets and a position behind all that they were read from. -/
inductive Stands : List Frame → List Waiting → List Completed → Nat → Nat → Prop
  | nil : Stands [] [] [] 0 0
  | bracket {frames : List Frame} {waiting : List Waiting} {done : List Completed}
    {layer stop : Nat} (h : Stands frames waiting done layer stop) :
    Stands (.bracket :: frames) waiting done (layer + 1) stop
  | push {frames : List Frame} {waiting : List Waiting} {done : List Completed} {stop : Nat}
    {frame : Frame} {first : Waiting} {lefts : List Completed}
    (h : Stands frames waiting done first.layer stop) (hentry : Entry stop frame first lefts) :
    Stands (frame :: frames) (first :: waiting) (lefts ++ done) first.layer first.span.stop

/-- Above the stacks given, operators of closed brackets linger, which stand for frames inside these
brackets. -/
inductive Lingers (layer : Nat) (waiting : List Waiting) (done : List Completed) (stop : Nat) :
    List Frame → List Waiting → List Completed → Nat → Prop
  | nil : Lingers layer waiting done stop [] waiting done stop
  | push {frames : List Frame} {waiting' : List Waiting} {done' : List Completed} {stop' : Nat}
    {frame : Frame} {first : Waiting} {lefts : List Completed}
    (h : Lingers layer waiting done stop frames waiting' done' stop')
    (hlayer : layer < first.layer) (hentry : Entry stop' frame first lefts) :
    Lingers layer waiting done stop (frame :: frames) (first :: waiting') (lefts ++ done')
      first.span.stop

/-! ## Applying what stands -/

section

variable {frames inner : List Frame} {frame : Frame} {waiting waiting' : List Waiting}
  {done done' lefts : List Completed} {first : Waiting} {expr : Expr}
  {layer start stop stop' limit : Nat}

/-- An operator that takes its operands is applied, unless the new expression is too high. -/
theorem Waiting.Takes.apply_eq {limit : Option Nat} (h : first.Takes done expr done') :
    first.apply limit done =
      if limit.all (expr.height ≤ ·) then .ok (expr.measured :: done')
      else misplaced expr.span := by
  cases h with
  | @between op layer order span left right rest hleft hspan hright =>
    have hordered : left.span.stop ≤ right.span.start :=
      Nat.le_trans hleft (Nat.le_trans hspan hright)
    exact (if_pos hordered).trans
      (addExpr_eq (left.isMeasured_measured.binary right.isMeasured_measured op _))
  | @before op layer order span operand rest hspan hoperand =>
    have hordered : span.start ≤ operand.span.start := Nat.le_trans hspan hoperand
    exact (if_pos hordered).trans (addExpr_eq (operand.isMeasured_measured.unary op _))

/-- An operator takes the operands that stand on its sides. -/
theorem Entry.takes (h : Entry start frame first lefts) (hexpr : expr.LiesIn first.span.stop stop)
    (done : List Completed) :
    first.Takes (expr.measured :: (lefts ++ done)) (frame.close expr) done := by
  cases h with
  | between hleft hspan => exact .between hleft.le_stop hspan hexpr.start_le
  | before hstart hspan => exact .before hspan hexpr.start_le

/-- An operator that stands for a frame closes it. -/
theorem Entry.apply (h : Entry start frame first lefts) (hexpr : expr.LiesIn first.span.stop stop)
    (done : List Completed) :
    first.apply none (expr.measured :: (lefts ++ done)) =
        .ok ((frame.close expr).measured :: done) ∧
      (frame.close expr).LiesIn start stop := by
  refine ⟨(h.takes hexpr done).apply_eq.trans (if_pos rfl), ?_⟩
  cases h with
  | @between op left layer span hleft hspan =>
    have hordered : left.span.stop ≤ expr.span.start :=
      Nat.le_trans hleft.le_stop (Nat.le_trans hspan hexpr.start_le)
    have := hleft.start_le
    have := hleft.le
    have := hexpr.le
    have := hexpr.le_stop
    refine ⟨?_, ?_, ?_⟩
    all_goals simp only [Frame.close, Expr.span_binary, Span.hull]; omega
  | before hstart hspan =>
    exact ⟨hstart, Nat.le_trans hspan (Nat.le_trans hexpr.start_le hexpr.le), hexpr.le_stop⟩

/-- The operator that stands for a frame has the order that the frame reads its operand with. -/
theorem Entry.order?_eq (h : Entry start frame first lefts) : frame.order? = some first.order := by
  cases h <;> rfl

/-- No operator waits in a layer that is not open. -/
theorem Stands.layer_le (h : Stands frames waiting done layer stop) :
    ∀ w ∈ waiting, w.layer ≤ layer := by
  induction h with
  | nil => exact fun w hw ↦ absurd hw List.not_mem_nil
  | bracket _ ih => exact fun w hw ↦ Nat.le_succ_of_le (ih w hw)
  | push _ _ ih =>
    intro w hw
    rcases List.mem_cons.mp hw with rfl | hw
    · exact Nat.le_refl _
    · exact ih w hw

/-- Where the first waiting operator is not due none is applied. -/
theorem applyDue_of_not_due {isDue : Waiting → Bool} (h : ∀ w ∈ waiting, isDue w = false)
    (done : List Completed) : applyDue none isDue waiting done = .ok (waiting, done) := by
  cases waiting with
  | nil => rfl
  | cons first waiting => simp [applyDue, h first List.mem_cons_self]

/-- An operator that arrives applies what stands for the frames that it closes. -/
theorem Stands.applyDue (h : Stands frames waiting done layer stop) (yields : Nat → Bool)
    (hexpr : expr.LiesIn stop limit) :
    ∃ waiting' done' stop',
      applyDue none (Waiting.isDue layer yields) waiting (expr.measured :: done) =
        .ok (waiting', (Descent.settle yields frames expr).2.measured :: done') ∧
      Stands (Descent.settle yields frames expr).1 waiting' done' layer stop' ∧
      (Descent.settle yields frames expr).2.LiesIn stop' limit := by
  induction h generalizing expr with
  | nil => exact ⟨[], [], 0, rfl, .nil, hexpr⟩
  | @bracket frames waiting done layer stop h ih =>
    refine ⟨waiting, done, stop, applyDue_of_not_due (fun w hw ↦ ?_) _, .bracket h, hexpr⟩
    have := h.layer_le w hw
    simp only [Waiting.isDue, Bool.or_eq_false_iff, decide_eq_false_iff_not, Bool.and_eq_false_iff,
      beq_eq_false_iff_ne]
    omega
  | @push frames waiting done stop frame first lefts h hentry ih =>
    rw [Descent.settle, hentry.order?_eq, Option.any_some]
    have hdue : first.isDue first.layer yields = yields first.order := by
      simp [Waiting.isDue]
    cases hyields : yields first.order with
    | false =>
      refine ⟨first :: waiting, lefts ++ done, first.span.stop, ?_, .push h hentry, hexpr⟩
      simp [Reckoner.applyDue, hdue, hyields]
    | true =>
      obtain ⟨happly, hclose⟩ := hentry.apply hexpr done
      obtain ⟨waiting', done', stop', hrest, hstands, hlies⟩ := ih hclose
      refine ⟨waiting', done', stop', ?_, hstands, hlies⟩
      simp only [Reckoner.applyDue, hdue, hyields, if_true, happly, ok_bind]
      exact hrest

/-- At the end of a line all that stands is applied. -/
theorem Stands.applyAll (h : Stands frames waiting done layer stop)
    (hexpr : expr.LiesIn stop limit) :
    Reckoner.applyDue none (fun _ ↦ true) waiting (expr.measured :: done) =
      .ok ([], [(closeAll frames expr).measured]) := by
  induction h generalizing expr with
  | nil => rfl
  | bracket _ ih => exact ih hexpr
  | @push frames waiting done stop frame first lefts _ hentry ih =>
    obtain ⟨happly, hclose⟩ := hentry.apply hexpr done
    simp only [Reckoner.applyDue, if_true, happly, ok_bind]
    exact ih hclose

/-- What lingers is applied before what stands below it. -/
theorem Lingers.applyDue (h : Lingers layer waiting done stop inner waiting' done' stop')
    {isDue : Waiting → Bool} (hdue : ∀ w, layer < w.layer → isDue w = true)
    (hexpr : expr.LiesIn stop' limit) :
    Reckoner.applyDue none isDue waiting' (expr.measured :: done') =
        Reckoner.applyDue none isDue waiting ((closeAll inner expr).measured :: done) ∧
      (closeAll inner expr).LiesIn stop limit := by
  induction h generalizing expr with
  | nil => exact ⟨rfl, hexpr⟩
  | @push frames waiting' done' stop' frame first lefts _ hlayer hentry ih =>
    obtain ⟨happly, hclose⟩ := hentry.apply hexpr done'
    obtain ⟨hrest, hlies⟩ := ih hclose
    refine ⟨?_, hlies⟩
    simp only [Reckoner.applyDue, hdue _ hlayer, if_true, happly, ok_bind]
    exact hrest

/-! ## Closing a bracket -/

/-- Where no bracket is open none can be closed. -/
theorem Stands.leaveBracket?_eq_none (h : Stands frames waiting done layer stop)
    (hlayer : layer = 0) (expr : Expr) : leaveBracket? frames expr = none := by
  induction h generalizing expr with
  | nil => rfl
  | bracket => cases hlayer
  | push _ hentry ih => cases hentry <;> exact ih hlayer _

/-- What lingers above an operator that comes to linger too. -/
theorem Lingers.snoc (h : Lingers layer (first :: waiting) (lefts ++ done) first.span.stop
      inner waiting' done' stop')
    (hlayer : layer < first.layer) (hentry : Entry stop frame first lefts) :
    Lingers layer waiting done stop (inner ++ [frame]) waiting' done' stop' := by
  induction h with
  | nil => exact .push .nil hlayer hentry
  | push _ hlayer' hentry' ih => exact .push ih hlayer' hentry'

/-- When a bracket closes, the operators in it come to linger. -/
theorem Stands.leaveBracket? (h : Stands frames waiting done (layer + 1) stop)
    (hlingers : Lingers layer waiting done stop inner waiting' done' stop') (expr : Expr) :
    ∃ frames₀ inner₀ waiting₀ done₀ stop₀,
      leaveBracket? frames (closeAll inner expr) = some (frames₀, closeAll inner₀ expr) ∧
      Stands frames₀ waiting₀ done₀ layer stop₀ ∧
      Lingers layer waiting₀ done₀ stop₀ inner₀ waiting' done' stop' := by
  generalize hlayer : layer + 1 = layer' at h
  induction h generalizing inner with
  | nil => cases hlayer
  | @bracket frames waiting done layer'' stop h _ =>
    cases hlayer
    exact ⟨frames, inner, waiting, done, stop, rfl, h, hlingers⟩
  | @push frames waiting done stop frame first lefts _ hentry ih =>
    have hlt : layer < first.layer := by omega
    obtain ⟨frames₀, inner₀, waiting₀, done₀, stop₀, hleave, hstands, hlingers₀⟩ :=
      ih (hlingers.snoc hlt hentry) hlayer
    refine ⟨frames₀, inner₀, waiting₀, done₀, stop₀, ?_, hstands, hlingers₀⟩
    rw [← hleave, closeAll_concat]
    cases hentry <;> rfl

/-- Operators that linger in a layer linger in all layers around it. -/
theorem Lingers.mono (h : Lingers layer waiting done stop inner waiting' done' stop')
    {layer' : Nat} (hle : layer' ≤ layer) :
    Lingers layer' waiting done stop inner waiting' done' stop' := by
  induction h with
  | nil => exact .nil
  | push _ hlayer hentry ih => exact .push ih (Nat.lt_of_le_of_lt hle hlayer) hentry

end

end Reckoner
