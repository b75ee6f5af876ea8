import Reckoner.Expr.OfLine
import Reckoner.Proofs.Fallible

/-!
# The depth is the height

The depth beside a finished expression is counted, not measured: a value is put down with depth one,
and an expression over others with one more than the greatest depth among them. Whatever has been
read, it is the height of the expression. So the limit, which is compared with the depth that an
expression is about to get, is a limit on heights.
-/

namespace Reckoner

/-- A finished expression with its height for its depth. -/
def Expr.measured (expr : Expr) : Completed := ⟨expr, expr.height⟩

/-- The depth beside an expression is its height. -/
def Completed.IsMeasured (tree : Completed) : Prop := tree.depth = tree.expr.height

/-- The depth beside each of the finished expressions is its height. -/
def Measured (done : List Completed) : Prop := ∀ tree ∈ done, tree.IsMeasured

/-- A step fails or ends in finished expressions with the right depths. -/
def Measures {α : Type} (done : α → List Completed) : Building α → Prop
  | .ok a => Measured (done a)
  | .error _ => True

section

variable {α β : Type} {done : α → List Completed} {done' : β → List Completed}
  {expr operand left right : Expr} {depth leftDepth rightDepth below : Nat}
  {trees : List Completed} {tree : Completed} {limit : Option Nat}

theorem Completed.IsMeasured.eq (h : tree.IsMeasured) : tree = tree.expr.measured :=
  congrArg (Completed.mk tree.expr) h

/-- One more than the depth of its operand is the height of an expression. -/
theorem Completed.IsMeasured.unary (h : IsMeasured ⟨operand, depth⟩) (op : UnaryOperator)
    (span : Span) : depth + 1 = (Expr.unary op operand span).height := congrArg Nat.succ h

/-- One more than the greater depth of its operands is the height of an expression. -/
theorem Completed.IsMeasured.binary (hleft : IsMeasured ⟨left, leftDepth⟩)
    (hright : IsMeasured ⟨right, rightDepth⟩) (op : BinaryOperator) (span : Span) :
    max leftDepth rightDepth + 1 = (Expr.binary op left right span).height := by
  have hmax : max leftDepth rightDepth = max left.height right.height := by
    rw [show leftDepth = left.height from hleft, show rightDepth = right.height from hright]
  exact congrArg Nat.succ hmax

theorem Expr.isMeasured_measured (expr : Expr) : expr.measured.IsMeasured := rfl

theorem measured_nil : Measured [] := fun _ ↦ nofun

theorem measured_cons : Measured (tree :: trees) ↔ tree.IsMeasured ∧ Measured trees :=
  List.forall_mem_cons

theorem Measures.bind {x : Building α} {f : α → Building β} (hx : Measures done x)
    (hf : ∀ a, Measured (done a) → Measures done' (f a)) : Measures done' (x >>= f) := by
  cases x with
  | error fault => trivial
  | ok a => exact hf a hx

theorem Measures.of_eq_ok {x : Building α} {a : α} (h : Measures done x) (hx : x = .ok a) :
    Measured (done a) := by
  subst hx
  exact h

/-- A limit is kept or not by the height of a new expression. -/
theorem addExpr_eq (hbelow : below + 1 = expr.height) :
    addExpr limit expr below trees =
      if limit.all (expr.height ≤ ·) then .ok (expr.measured :: trees)
      else misplaced expr.span := by
  simp only [addExpr, hbelow, Expr.measured]

/-! ## The steps of building -/

theorem measures_addExpr (hbelow : below + 1 = expr.height) (h : Measured trees) :
    Measures id (addExpr limit expr below trees) := by
  rw [addExpr_eq hbelow]
  split
  · exact measured_cons.mpr ⟨expr.isMeasured_measured, h⟩
  · trivial

theorem measures_apply (waiting : Waiting) (h : Measured trees) :
    Measures id (waiting.apply limit trees) := by
  obtain ⟨op, layer, order, span⟩ := waiting
  match op, trees with
  | .between op, [] | .between op, [_] | .beside op, [] => trivial
  | .between op, ⟨right, rightDepth⟩ :: ⟨left, leftDepth⟩ :: rest =>
    obtain ⟨hright, h⟩ := measured_cons.mp h
    obtain ⟨hleft, hrest⟩ := measured_cons.mp h
    simp only [Waiting.apply]
    split
    · exact measures_addExpr (hleft.binary hright op _) hrest
    · trivial
  | .beside op, ⟨operand, depth⟩ :: rest =>
    obtain ⟨hoperand, hrest⟩ := measured_cons.mp h
    simp only [Waiting.apply]
    split
    · exact measures_addExpr (hoperand.unary op _) hrest
    · trivial

theorem measures_applyDue (isDue : Waiting → Bool) (waiting : List Waiting) (h : Measured trees) :
    Measures Prod.snd (applyDue limit isDue waiting trees) := by
  induction waiting generalizing trees with
  | nil => exact h
  | cons first others ih =>
    rw [applyDue]
    split
    · exact (measures_apply first h).bind fun _ ↦ ih
    · exact h

namespace Stacks

variable {s : Stacks}

theorem measures_yield (yields : Nat → Bool) (h : Measured s.done) :
    Measures Stacks.done (s.yield limit yields) :=
  (measures_applyDue _ s.waiting h).bind fun _ ↦ id

theorem measures_between (op : BinaryOperator) (span : Span) (h : Measured s.done) :
    Measures Stacks.done (s.between limit op span) := by
  rw [between]
  split
  · exact (measures_yield _ h).bind fun _ ↦ id
  all_goals trivial

theorem measures_join (op : BinaryOperator) (index : Nat) (h : Measured s.done) :
    Measures Stacks.done (s.join limit op index) := by
  rw [join]
  split
  · exact measures_between op _ h
  · exact h

/-- An operator after its operand takes the expression that is on top. -/
theorem after_eq {s' : Stacks} {op : UnaryOperator} {span : Span} (hlast : s.last = .value)
    (hyield : s.yield limit op.yieldsTo = .ok s') (hdone : s'.done = operand.measured :: trees)
    (hordered : operand.span.stop ≤ span.start) :
    s.after limit op span =
      addExpr limit (.unary op operand ⟨operand.span.start, span.stop⟩) operand.height trees >>=
        fun done ↦ .ok { s' with done } := by
  rw [after, if_pos hlast, hyield, ok_bind, hdone]
  exact if_pos hordered

theorem measures_after (op : UnaryOperator) (span : Span) (h : Measured s.done) :
    Measures Stacks.done (s.after limit op span) := by
  rw [after]
  split
  · refine (measures_yield _ h).bind fun s' hs' ↦ ?_
    split
    · rename_i operand depth rest hdone
      obtain ⟨hoperand, hrest⟩ := measured_cons.mp (hdone ▸ hs')
      split
      · exact (measures_addExpr (hoperand.unary op _) hrest).bind fun _ ↦ id
      · trivial
    · trivial
  · trivial

theorem measured_pushValue (value : Float) (span : Span) (h : Measured s.done) :
    Measured (s.pushValue value span).done :=
  measured_cons.mpr ⟨rfl, h⟩

/-- Reading an item keeps the depths right. -/
theorem measures_step (voc : Vocabulary) (item : Item) (span : Span) (h : Measured s.done) :
    Measures Stacks.done (s.step voc limit item span) := by
  match item with
  | .number value =>
    rw [step]
    split
    · trivial
    · exact measured_pushValue value span h
  | .value value =>
    exact (measures_join _ _ h).bind fun _ hs' ↦ measured_pushValue value span hs'
  | .operator (.between op) => exact measures_between op span h
  | .operator (.beside op) =>
    rw [step]
    cases op.side with
    | before => exact (measures_join _ _ h).bind fun _ ↦ id
    | after => exact measures_after op span h
  | .opening => exact (measures_join _ _ h).bind fun _ ↦ id
  | .closing =>
    rw [step, closing]
    split
    · trivial
    · split
      · exact h
      all_goals trivial

/-- Whatever tokens are read, the depths stay right. -/
theorem measures_read (voc : Vocabulary) (scope : Scope) (tokens : List Token)
    (h : Measured s.done) : Measures Stacks.done (s.read voc scope limit tokens) := by
  induction tokens generalizing s with
  | nil => exact h
  | cons token rest ih =>
    rw [read]
    split
    · trivial
    · cases token.item voc scope with
      | error fault => trivial
      | ok item => exact (measures_step voc item token.span h).bind fun _ ↦ ih

end Stacks

end

end Reckoner
