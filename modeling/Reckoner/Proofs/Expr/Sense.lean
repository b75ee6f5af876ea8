import Reckoner.Proofs.Number.Negation
import Reckoner.Proofs.Outcome
import Reckoner.Vocabulary.Standard

/-!
# Expressions up to their sign

The outcome of an expression is its value, or the cause of its first fault wherever that is. Two
expressions have the same sense if they have the same outcome, and the opposite sense if one has the
outcome of the other with its value negated. Products, quotients, remainders and shares keep either
sense of their first operand. A negation turns the same sense into the opposite one, and adding an
expression of the opposite sense is subtracting the other.
-/

namespace Reckoner

/-- How the values of two expressions are related. -/
inductive Sense where
  | same
  | opposite
deriving DecidableEq, Repr

/-- The outcome that an expression has whose sense is the one given relative to an outcome. -/
def Sense.turn : Sense → Computation → Computation
  | same, outcome => outcome
  | opposite, outcome => outcome.map fun a ↦ -a

/-- The outcome of a computation, which has failed if its result is not finite. -/
def settled : Computation → Computation
  | .ok value => if value.isFinite then .ok value else .error .resultTooLarge
  | .error cause => .error cause

namespace Expr

/-- The value of an expression or the cause of the first fault in it. -/
def outcome (expr : Expr) : Computation := expr.value.mapError Located.cause

/-- The expression has a sense relative to another. -/
def HasSense (sense : Sense) (expr expr' : Expr) : Prop := expr.outcome = sense.turn expr'.outcome

end Expr

/-- An operator of the order of a product whose result is negated with its left operand. -/
structure BinaryOperator.IsFactor (op : BinaryOperator) : Prop where
  order_eq : op.order = 1
  associativity_eq : op.associativity = .leftToRight
  rule_neg : ∀ a b, op.rule (-a) b = (op.rule a b).map fun a ↦ -a

/-- An operator after its operand, of the order of a product, whose result is negated with its
operand. -/
structure UnaryOperator.IsShare (op : UnaryOperator) : Prop where
  order_eq : op.order = 1
  rule_neg : ∀ a, op.rule (-a) = (op.rule a).map fun a ↦ -a

/-! ## Operators -/

namespace Standard

theorem isFactor_multiplication : multiplication.IsFactor where
  order_eq := rfl
  associativity_eq := rfl
  rule_neg a b := congrArg Except.ok (neg_mul_eq_neg a b)

theorem isFactor_division : division.IsFactor where
  order_eq := rfl
  associativity_eq := rfl
  rule_neg a b := by
    simp only [division, between, Rule.divide, neg_div_eq_neg]
    split <;> rfl

theorem isFactor_modulo : modulo.IsFactor where
  order_eq := rfl
  associativity_eq := rfl
  rule_neg a b := by
    simp only [modulo, between, Rule.modulo, remainder_neg]
    split <;> rfl

theorem isShare_percent : percent.IsShare where
  order_eq := rfl
  rule_neg a := congrArg Except.ok (neg_mul_eq_neg a _)

theorem isShare_degree : degree.IsShare where
  order_eq := rfl
  rule_neg a := congrArg Except.ok (neg_mul_eq_neg a _)

/-- The standard operators between two operands. -/
theorem binary_cases {op : BinaryOperator} (h : op ∈ Vocabulary.standard.binary) :
    op = addition ∨ op.IsFactor ∨ op = power := by
  have h : op ∈ [addition, multiplication, division, modulo, power] := h
  simp only [List.mem_cons, List.not_mem_nil, or_false] at h
  rcases h with rfl | rfl | rfl | rfl | rfl
  · exact .inl rfl
  · exact .inr (.inl isFactor_multiplication)
  · exact .inr (.inl isFactor_division)
  · exact .inr (.inl isFactor_modulo)
  · exact .inr (.inr rfl)

/-- The standard operators beside one operand are some with a symbol each and the functions. -/
theorem mem_unary_cases {op : UnaryOperator} (h : op ∈ Vocabulary.standard.unary) :
    op = negation ∨ op = factorial ∨ op = percent ∨ op = degree ∨
      op.side = .before ∧ op.negation = false := by
  have h : op ∈ [negation, factorial, percent, degree] ++ functions := h
  simp only [List.cons_append, List.nil_append, List.mem_cons] at h
  rcases h with h | h | h | h | h
  · exact .inl h
  · exact .inr (.inl h)
  · exact .inr (.inr (.inl h))
  · exact .inr (.inr (.inr (.inl h)))
  · obtain ⟨entry, -, rfl⟩ := List.mem_map.mp h
    exact .inr (.inr (.inr (.inr ⟨rfl, rfl⟩)))

/-- Among the standard operators there is one negation. -/
theorem eq_negation_or {op : UnaryOperator} (h : op ∈ Vocabulary.standard.unary) :
    op = negation ∨ op.negation = false := by
  rcases mem_unary_cases h with h | rfl | rfl | rfl | ⟨-, h⟩
  · exact .inl h
  · exact .inr rfl
  · exact .inr rfl
  · exact .inr rfl
  · exact .inr h

/-- The standard operators after a value give a share of it or raise it. -/
theorem isShare_or_eq_factorial {op : UnaryOperator} (h : op ∈ Vocabulary.standard.unary)
    (hside : op.side = .after) : op.IsShare ∨ op = factorial := by
  rcases mem_unary_cases h with rfl | h | rfl | rfl | ⟨h, -⟩
  · cases hside
  · exact .inr h
  · exact .inl isShare_percent
  · exact .inl isShare_degree
  · rw [hside] at h
    cases h

end Standard

/-! ## Outcomes -/

/-- A negated result is finite if the result is. -/
theorem settled_map_neg (computation : Computation) :
    settled (computation.map fun a ↦ -a) = (settled computation).map fun a ↦ -a := by
  cases computation with
  | error cause => rfl
  | ok value =>
    simp only [Except.map, settled, isFinite_neg]
    split <;> rfl

theorem mapError_settle (computation : Computation) (span : Span) :
    (settle computation span).mapError Located.cause = settled computation := by
  cases computation with
  | error cause => rfl
  | ok value =>
    simp only [settle, settled]
    split <;> rfl

namespace Expr

variable {expr expr' left left' right right' : Expr} {op : BinaryOperator} {op₁ : UnaryOperator}
  {span span' : Span} {sense : Sense}

theorem outcome_literal (value : Float) (span : Span) :
    (literal value span).outcome = settled (.ok value) := mapError_settle _ span

theorem outcome_unary : (unary op₁ expr span).outcome =
    expr.outcome >>= fun a ↦ settled (op₁.rule a) := by
  simp only [outcome, value, mapError_bind, mapError_settle]

theorem outcome_binary : (binary op left right span).outcome =
    left.outcome >>= fun a ↦ right.outcome >>= fun b ↦ settled (op.rule a b) := by
  simp only [outcome, value, mapError_bind, mapError_settle]

/-- The value that an expression comes to is finite. -/
theorem isFinite_of_outcome {value : Float} (h : expr.outcome = .ok value) :
    value.isFinite = true :=
  isFinite_of_value (mapError_eq_ok_iff.mp h)

namespace HasSense

theorem literal (value : Float) (span span' : Span) :
    HasSense .same (.literal value span) (.literal value span') := by
  rw [HasSense, outcome_literal, outcome_literal]
  rfl

theorem unary (op : UnaryOperator) (h : HasSense .same expr expr') :
    HasSense .same (.unary op expr span) (.unary op expr' span') := by
  have h : expr.outcome = expr'.outcome := h
  rw [HasSense, outcome_unary, outcome_unary, h]
  rfl

theorem binary (op : BinaryOperator) (hleft : HasSense .same left left')
    (hright : HasSense .same right right') :
    HasSense .same (.binary op left right span) (.binary op left' right' span') := by
  have hleft : left.outcome = left'.outcome := hleft
  have hright : right.outcome = right'.outcome := hright
  rw [HasSense, outcome_binary, outcome_binary, hleft, hright]
  rfl

/-- A negated expression. -/
theorem negation (h : HasSense .same expr expr') :
    HasSense .opposite (.unary Standard.negation expr span) expr' := by
  have h : expr.outcome = expr'.outcome := h
  rw [HasSense, outcome_unary, h]
  cases houtcome : expr'.outcome with
  | error cause => rfl
  | ok a =>
    have hfinite : (-a).isFinite = true := (isFinite_neg a).trans (isFinite_of_outcome houtcome)
    exact if_pos hfinite

/-- A share of a negated expression. -/
theorem share (hop : op₁.IsShare) (h : HasSense .opposite expr expr') :
    HasSense .opposite (.unary op₁ expr span) (.unary op₁ expr' span') := by
  have h : expr.outcome = expr'.outcome.map fun a ↦ -a := h
  rw [HasSense, outcome_unary, outcome_unary, h, map_bind, Sense.turn, bind_map]
  simp only [hop.rule_neg, settled_map_neg]

/-- A product of a negated expression. -/
theorem factor (hop : op.IsFactor) (hleft : HasSense .opposite left left')
    (hright : HasSense .same right right') :
    HasSense .opposite (.binary op left right span) (.binary op left' right' span') := by
  have hleft : left.outcome = left'.outcome.map fun a ↦ -a := hleft
  have hright : right.outcome = right'.outcome := hright
  rw [HasSense, outcome_binary, outcome_binary, hleft, hright, map_bind, Sense.turn, bind_map]
  simp only [hop.rule_neg, settled_map_neg, bind_map]

end HasSense

end Expr

end Reckoner
