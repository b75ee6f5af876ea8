import Reckoner.Proofs.Expr.Height
import Reckoner.Proofs.Outcome

/-!
# Computing by a stack machine

The value of an expression is what a stack machine comes to that is given the nodes of the
expression one by one, operands first. The machine takes the operands of a node from its stack and
puts the result there, and it stops at the first node whose rule refuses its operands or whose
result is not finite. What comes behind that node is never run, so of several nodes that would fail
the first in this order is at fault.

What each node comes to when nothing is checked is `Expr.result`. An expression has a value if and
only if the results of all its parts are finite.
-/

namespace Reckoner

/-! ## The machine -/

/-- A node of an expression, without its operands. -/
inductive Node where
  | literal (value : Float) (span : Span)
  | unary (op : UnaryOperator) (span : Span)
  | binary (op : BinaryOperator) (span : Span)

/-- Why a stack machine stops. -/
inductive Halt where
  | fault (fault : Located ComputingFault)
  /-- The stack holds fewer values than a node takes. -/
  | underflow

namespace Node

/-- The place of a node. -/
def span : Node → Span
  | literal _ s => s
  | unary _ s => s
  | binary _ s => s

/-- What the rule of a node gives for the values on top of a stack, which holds the latest first,
and the stack below them. -/
def applied? : Node → List Float → Option (Computation × List Float)
  | literal value _, stack => some (.ok value, stack)
  | unary op _, a :: stack => some (op.rule a, stack)
  | binary op _, b :: a :: stack => some (op.rule a b, stack)
  | _, _ => none

/-- Run one node. -/
def step (node : Node) (stack : List Float) : Except Halt (List Float) :=
  match node.applied? stack with
  | none => .error .underflow
  | some (.error cause, _) => .error (.fault ⟨cause, node.span⟩)
  | some (.ok value, rest) =>
    if value.isFinite then .ok (value :: rest) else .error (.fault ⟨.resultTooLarge, node.span⟩)

/-- Run nodes one after the other. -/
def run : List Node → List Float → Except Halt (List Float)
  | [], stack => .ok stack
  | node :: nodes, stack => node.step stack >>= run nodes

/-- A node that finds its operands settles what its rule gives for them, and the nodes behind it run
only if that is a value. -/
theorem run_cons_of_applied? {node : Node} {stack rest : List Float} {computation : Computation}
    (h : node.applied? stack = some (computation, rest)) (nodes : List Node) :
    run (node :: nodes) stack =
      (settle computation node.span).mapError Halt.fault >>= fun v ↦ run nodes (v :: rest) := by
  rw [run, step, h]
  cases computation with
  | error cause => rfl
  | ok value =>
    rw [settle]
    dsimp only
    split <;> rfl

end Node

namespace Expr

/-- An expression and all its parts, operands first. -/
def postorder : Expr → List Expr
  | literal v span => [literal v span]
  | unary op operand span => operand.postorder ++ [unary op operand span]
  | binary op left right span =>
    left.postorder ++ right.postorder ++ [binary op left right span]

/-- The node at the root of an expression. -/
def node : Expr → Node
  | literal v span => .literal v span
  | unary op _ span => .unary op span
  | binary op _ _ span => .binary op span

/-- The nodes of an expression, operands first. -/
def nodes (expr : Expr) : List Node := expr.postorder.map node

theorem nodes_unary (op : UnaryOperator) (operand : Expr) (span : Span) :
    (unary op operand span).nodes = operand.nodes ++ [.unary op span] := by
  simp only [nodes, postorder, List.map_append, List.map_cons, List.map_nil, node]

theorem nodes_binary (op : BinaryOperator) (left right : Expr) (span : Span) :
    (binary op left right span).nodes = left.nodes ++ (right.nodes ++ [.binary op span]) := by
  simp only [nodes, postorder, List.map_append, List.map_cons, List.map_nil, node,
    List.append_assoc]

/-- The parts of an expression in order are those that stand somewhere in it. -/
theorem mem_postorder_iff {part expr : Expr} : part ∈ expr.postorder ↔ part.IsPart expr := by
  constructor
  · intro h
    induction expr with
    | literal =>
      rw [List.mem_singleton.mp h]
      exact .refl
    | unary op operand span ih =>
      rcases List.mem_append.mp h with h | h
      · exact .unary (ih h)
      · rw [List.mem_singleton.mp h]
        exact .refl
    | binary op left right span ihleft ihright =>
      rcases List.mem_append.mp h with h | h
      · rcases List.mem_append.mp h with h | h
        · exact .left (ihleft h)
        · exact .right (ihright h)
      · rw [List.mem_singleton.mp h]
        exact .refl
  · intro h
    induction h with
    | refl => cases part <;> simp [postorder]
    | unary _ ih => exact List.mem_append_left _ ih
    | left _ ih => exact List.mem_append_left _ (List.mem_append_left _ ih)
    | right _ ih => exact List.mem_append_left _ (List.mem_append_right _ ih)

/-- The nodes of an expression put its value on the stack, whatever is in the stack and whatever
comes behind them, or the machine stops with its fault. -/
theorem run_nodes_append (expr : Expr) (others : List Node) (stack : List Float) :
    Node.run (expr.nodes ++ others) stack =
      expr.value.mapError Halt.fault >>= fun v ↦ Node.run others (v :: stack) := by
  induction expr generalizing others stack with
  | literal v span => exact Node.run_cons_of_applied? rfl others
  | unary op operand span ih =>
    rw [nodes_unary, List.append_assoc, ih, value, mapError_bind, bind_assoc]
    exact congrArg _ (funext fun a ↦ Node.run_cons_of_applied? rfl others)
  | binary op left right span ihleft ihright =>
    rw [nodes_binary, List.append_assoc, ihleft, value, mapError_bind, bind_assoc]
    refine congrArg _ (funext fun a ↦ ?_)
    rw [List.append_assoc, ihright, mapError_bind, bind_assoc]
    exact congrArg _ (funext fun b ↦ Node.run_cons_of_applied? rfl others)

/-! ## What each node comes to -/

/-- What the rule at the root of an expression gives for what the rules below it give, when nothing
is checked. -/
def result : Expr → Computation
  | literal v _ => .ok v
  | unary op operand _ => operand.result >>= op.rule
  | binary op left right _ => do
    let a ← left.result
    let b ← right.result
    op.rule a b

/-- The fault at the root of an expression: the refusal of its rule, or a result that is not
finite. -/
def fault? (expr : Expr) : Option (Located ComputingFault) :=
  match expr.result with
  | .error cause => some ⟨cause, expr.span⟩
  | .ok v => if v.isFinite then none else some ⟨.resultTooLarge, expr.span⟩

variable {expr part : Expr} {fault : Located ComputingFault}

theorem fault?_eq_none_iff :
    expr.fault? = none ↔ ∃ v, expr.result = .ok v ∧ v.isFinite = true := by
  rw [fault?]
  cases expr.result <;> simp

/-- The fault at the root is found when the result there is settled. -/
theorem settle_result_of_fault? (h : expr.fault? = some fault) :
    settle expr.result expr.span = .error fault := by
  rw [fault?] at h
  cases hresult : expr.result with
  | error cause =>
    rw [hresult] at h
    cases h
    rfl
  | ok v =>
    simp only [hresult, Option.ite_none_left_eq_some] at h
    obtain ⟨hinfinite, ⟨⟩⟩ := h
    rw [settle, if_neg hinfinite]

/-- A value that is the result at the root, and finite. -/
theorem exists_value_of_fault?_eq_none (hvalue : expr.value = settle expr.result expr.span)
    (h : expr.fault? = none) : ∃ v, expr.value = .ok v ∧ expr.result = .ok v := by
  obtain ⟨v, hresult, hfinite⟩ := fault?_eq_none_iff.mp h
  exact ⟨v, by rw [hvalue, hresult, settle, if_pos hfinite], hresult⟩

/-- Below a root that is computed last nothing is at fault, and so the result at the root is the one
that is settled. -/
theorem value_eq_settle_result (h : ∀ part ∈ expr.postorder.dropLast, part.fault? = none) :
    expr.value = settle expr.result expr.span := by
  have hoperand {operand : Expr} (ih : (∀ part ∈ operand.postorder.dropLast, part.fault? = none) →
      operand.value = settle operand.result operand.span)
      (h : ∀ part ∈ operand.postorder, part.fault? = none) :
      ∃ a, operand.value = .ok a ∧ operand.result = .ok a :=
    exists_value_of_fault?_eq_none (ih fun part hpart ↦ h part (List.dropLast_subset _ hpart))
      (h operand (mem_postorder_iff.mpr .refl))
  induction expr with
  | literal => rfl
  | unary op operand span ih =>
    rw [postorder, List.dropLast_concat] at h
    obtain ⟨a, hvalue, hresult⟩ := hoperand ih h
    rw [value, result, hvalue, hresult]
    rfl
  | binary op left right span ihleft ihright =>
    rw [postorder, List.dropLast_concat, List.forall_mem_append] at h
    obtain ⟨a, hleft, hleftResult⟩ := hoperand ihleft h.1
    obtain ⟨b, hright, hrightResult⟩ := hoperand ihright h.2
    rw [value, result, hleft, hleftResult, hright, hrightResult]
    rfl

/-- What stands in one of two lists stands in the first, or behind it in the second. -/
theorem split_append {α : Type} {xs ys before after : List α} {a : α}
    (h : xs ++ ys = before ++ a :: after) :
    (∃ between, xs = before ++ a :: between) ∨
      ∃ between, before = xs ++ between ∧ ys = between ++ a :: after := by
  rcases List.append_eq_append_iff.mp h with ⟨between, hbefore, hys⟩ | ⟨between, hxs, hys⟩
  · exact .inr ⟨between, hbefore, hys⟩
  · rcases List.cons_eq_append_iff.mp hys with ⟨rfl, rfl⟩ | ⟨between, rfl, -⟩
    · exact .inr ⟨[], by simpa using hxs.symm, rfl⟩
    · exact .inl ⟨between, hxs⟩

/-- The only element of a list is in front of nothing and behind nothing. -/
theorem eq_of_singleton_eq_append {α : Type} {before after : List α} {a b : α}
    (h : [b] = before ++ a :: after) : before = [] ∧ a = b := by
  rcases List.append_eq_singleton_iff.mp h.symm with ⟨rfl, hlast⟩ | ⟨-, hlast⟩
  · exact ⟨rfl, List.head_eq_of_cons_eq hlast⟩
  · cases hlast

/-- An expression none of whose parts is at fault has its result as its value. -/
theorem exists_value_of_faultless (h : ∀ part ∈ expr.postorder, part.fault? = none) :
    ∃ v, expr.value = .ok v ∧ expr.result = .ok v :=
  exists_value_of_fault?_eq_none
    (value_eq_settle_result fun part hpart ↦ h part (List.dropLast_subset _ hpart))
    (h expr (mem_postorder_iff.mpr .refl))

/-- The machine stops at the root of an expression if nothing below it is at fault. -/
theorem run_eq_error_at_root {before : List Expr} (hsplit : expr.postorder = before ++ [expr])
    (hbefore : ∀ earlier ∈ before, earlier.fault? = none) (hfault : expr.fault? = some fault)
    (later : List Node) (stack : List Float) :
    Node.run (before.map node ++ expr.node :: later) stack = .error (.fault fault) := by
  have hnodes : before.map node ++ expr.node :: later = expr.nodes ++ later := by
    rw [nodes, hsplit, List.map_append, List.append_assoc]
    rfl
  have hvalue : expr.value = .error fault := by
    rw [value_eq_settle_result (by rwa [hsplit, List.dropLast_concat]),
      settle_result_of_fault? hfault]
  rw [hnodes, run_nodes_append, hvalue]
  rfl

/-- The machine stops at the first node that is at fault, whatever comes behind it. -/
theorem run_eq_error_of_first {before after : List Expr}
    (hsplit : expr.postorder = before ++ part :: after)
    (hbefore : ∀ earlier ∈ before, earlier.fault? = none) (hfault : part.fault? = some fault)
    (later : List Node) (stack : List Float) :
    Node.run (before.map node ++ part.node :: later) stack = .error (.fault fault) := by
  induction expr generalizing before after stack with
  | literal v span =>
    obtain ⟨rfl, rfl⟩ := eq_of_singleton_eq_append hsplit
    exact run_eq_error_at_root rfl hbefore hfault later stack
  | unary op operand span ih =>
    rcases split_append hsplit with ⟨between, hoperand⟩ | ⟨between, rfl, hbetween⟩
    · exact ih hoperand hbefore stack
    · obtain ⟨rfl, rfl⟩ := eq_of_singleton_eq_append hbetween
      rw [List.append_nil] at hbefore ⊢
      exact run_eq_error_at_root rfl hbefore hfault later stack
  | binary op left right span ihleft ihright =>
    rcases split_append hsplit with ⟨between, hoperands⟩ | ⟨between, rfl, hbetween⟩
    · rcases split_append hoperands with ⟨between, hleft⟩ | ⟨between, rfl, hright⟩
      · exact ihleft hleft hbefore stack
      · obtain ⟨hleft, hbefore⟩ := List.forall_mem_append.mp hbefore
        obtain ⟨a, hvalue, -⟩ := exists_value_of_faultless hleft
        rw [List.map_append, List.append_assoc, ← nodes, run_nodes_append, hvalue]
        exact ihright hright hbefore (a :: stack)
    · obtain ⟨rfl, rfl⟩ := eq_of_singleton_eq_append hbetween
      rw [List.append_nil] at hbefore ⊢
      exact run_eq_error_at_root rfl hbefore hfault later stack

/-- The machine leaves the value of an expression alone on its stack, or stops with its fault. -/
theorem run_nodes (expr : Expr) :
    Node.run expr.nodes [] = (expr.value.mapError Halt.fault).map ([·]) := by
  have hrun := run_nodes_append expr [] []
  rw [List.append_nil] at hrun
  rw [hrun]
  cases expr.value <;> rfl

/-- The first part that is at fault gives the fault of the expression. -/
theorem value_eq_error_of_first {before after : List Expr}
    (hsplit : expr.postorder = before ++ part :: after)
    (hbefore : ∀ earlier ∈ before, earlier.fault? = none) (hfault : part.fault? = some fault) :
    expr.value = .error fault := by
  have hrun := run_eq_error_of_first hsplit hbefore hfault (after.map node) []
  rw [← List.map_cons, ← List.map_append, ← hsplit, ← nodes, run_nodes] at hrun
  cases hvalue : expr.value with
  | ok v =>
    rw [hvalue] at hrun
    cases hrun
  | error fault' =>
    rw [hvalue] at hrun
    cases hrun
    rfl

/-- No part of an expression is at fault, or one is the first to be. -/
theorem faultless_or_exists_first (expr : Expr) :
    (∀ part ∈ expr.postorder, part.fault? = none) ∨ ∃ before part after fault,
      expr.postorder = before ++ part :: after ∧ (∀ earlier ∈ before, earlier.fault? = none) ∧
        part.fault? = some fault := by
  cases hfirst : expr.postorder.findSome? fault? with
  | none => exact .inl (List.findSome?_eq_none_iff.mp hfirst)
  | some fault =>
    obtain ⟨before, part, after, hsplit, hfault, hbefore⟩ :=
      List.findSome?_eq_some_iff.mp hfirst
    exact .inr ⟨before, part, after, fault, hsplit, hbefore, hfault⟩

/-- An expression has a value only if none of its parts is at fault. -/
theorem faultless_of_value {v : Float} (h : expr.value = .ok v) :
    ∀ part ∈ expr.postorder, part.fault? = none := by
  rcases expr.faultless_or_exists_first with hfaultless | hfirst
  · exact hfaultless
  · obtain ⟨before, part, after, fault, hsplit, hbefore, hfault⟩ := hfirst
    cases h.symm.trans (value_eq_error_of_first hsplit hbefore hfault)

/-- An expression is at fault if and only if one of its parts is, and then as the first of them
is. -/
theorem value_eq_error_iff : expr.value = .error fault ↔ ∃ before part after,
    expr.postorder = before ++ part :: after ∧ (∀ earlier ∈ before, earlier.fault? = none) ∧
      part.fault? = some fault := by
  constructor
  · intro hvalue
    rcases expr.faultless_or_exists_first with hfaultless | hfirst
    · obtain ⟨v, hok, -⟩ := exists_value_of_faultless hfaultless
      cases hvalue.symm.trans hok
    · obtain ⟨before, part, after, fault', hsplit, hbefore, hfault⟩ := hfirst
      cases hvalue.symm.trans (value_eq_error_of_first hsplit hbefore hfault)
      exact ⟨before, part, after, hsplit, hbefore, hfault⟩
  · rintro ⟨before, part, after, hsplit, hbefore, hfault⟩
    exact value_eq_error_of_first hsplit hbefore hfault

/-- The value of an expression is what a stack machine comes to that runs its nodes, operands first.
There is a value if and only if the results of all parts are finite, and otherwise there is the
fault of the first part in this order whose result is not, whatever nodes come behind it. -/
theorem value_eq_run (expr : Expr) :
    Node.run expr.nodes [] = (expr.value.mapError Halt.fault).map ([·]) ∧
    ((∃ v, expr.value = .ok v) ↔
      ∀ part : Expr, part.IsPart expr → ∃ a, part.result = .ok a ∧ a.isFinite = true) ∧
    (∀ v, expr.value = .ok v → expr.result = .ok v ∧ v.isFinite = true) ∧
    ∀ fault, expr.value = .error fault ↔ ∃ before part after,
      expr.postorder = before ++ part :: after ∧
      (∀ earlier ∈ before, ∃ a, earlier.result = .ok a ∧ a.isFinite = true) ∧
      part.fault? = some fault ∧
      ∀ later, Node.run (before.map node ++ part.node :: later) [] = .error (.fault fault) := by
  simp only [← mem_postorder_iff, ← fault?_eq_none_iff]
  refine ⟨expr.run_nodes, ⟨?_, ?_⟩, fun v hvalue ↦ ⟨?_, isFinite_of_value hvalue⟩, fun fault ↦ ?_⟩
  · rintro ⟨v, hvalue⟩
    exact faultless_of_value hvalue
  · intro hfaultless
    obtain ⟨v, hvalue, -⟩ := exists_value_of_faultless hfaultless
    exact ⟨v, hvalue⟩
  · obtain ⟨a, hok, hresult⟩ := exists_value_of_faultless (faultless_of_value hvalue)
    cases hvalue.symm.trans hok
    exact hresult
  · rw [value_eq_error_iff]
    constructor
    · rintro ⟨before, part, after, hsplit, hbefore, hfault⟩
      exact ⟨before, part, after, hsplit, hbefore, hfault,
        fun later ↦ run_eq_error_of_first hsplit hbefore hfault later []⟩
    · rintro ⟨before, part, after, hsplit, hbefore, hfault, -⟩
      exact ⟨before, part, after, hsplit, hbefore, hfault⟩

end Expr

end Reckoner
