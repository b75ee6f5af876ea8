import Reckoner.Expr.Text
import Reckoner.Proofs.Expr.Height
import Reckoner.Vocabulary.Standard

/-!
# How deep a recursion over an expression goes

What is computed of an expression by recursion, its value, its text or the number of its nodes,
takes as many calls inside one another as the expression is high. The limit on the height is there
so that these calls are never more than the limit, and this module says what the limit does to a
line: nothing where the expression on it keeps the limit, and else it finds a part that is one too
high and the first to be.
-/

namespace Reckoner

namespace Expr

/-! ## Recursions -/

/-- What is computed of an expression from what is computed of its operands. -/
structure Recursion (α : Type) where
  literal : Float → Span → α
  unary : UnaryOperator → Span → α → α
  binary : BinaryOperator → Span → α → α → α

namespace Recursion

variable {α : Type}

/-- What a recursion computes of an expression. -/
def run (recursion : Recursion α) : Expr → α
  | .literal v span => recursion.literal v span
  | .unary op operand span => recursion.unary op span (recursion.run operand)
  | .binary op left right span =>
    recursion.binary op span (recursion.run left) (recursion.run right)

/-- What a recursion computes of an expression if no more calls than this may be inside one
another. -/
def runWithin (recursion : Recursion α) : Nat → Expr → Option α
  | 0, _ => none
  | _ + 1, .literal v span => some (recursion.literal v span)
  | calls + 1, .unary op operand span =>
    (recursion.runWithin calls operand).map (recursion.unary op span)
  | calls + 1, .binary op left right span => do
    let a ← recursion.runWithin calls left
    let b ← recursion.runWithin calls right
    return recursion.binary op span a b

/-- A recursion makes as many calls inside one another as the expression is high. -/
theorem runWithin_eq (recursion : Recursion α) (calls : Nat) (expr : Expr) :
    recursion.runWithin calls expr =
      if expr.height ≤ calls then some (recursion.run expr) else none := by
  induction calls generalizing expr with
  | zero =>
    have := expr.height_pos
    rw [runWithin, if_neg (by omega)]
  | succ calls ih =>
    cases expr with
    | literal v span => rfl
    | unary op operand span =>
      rw [runWithin, ih]
      simp only [height, Nat.add_le_add_iff_right]
      split <;> rfl
    | binary op left right span =>
      rw [runWithin, ih, ih]
      simp only [height, Nat.add_le_add_iff_right, Nat.max_le]
      by_cases hleft : left.height ≤ calls
      · by_cases hright : right.height ≤ calls <;> simp [hleft, hright, run]
      · simp [hleft]

end Recursion

/-- The recursion that computes the value. -/
def valuing : Recursion (Except (Located ComputingFault) Float) where
  literal v span := settle (.ok v) span
  unary op span a := a >>= fun a ↦ settle (op.rule a) span
  binary op span a b := a >>= fun a ↦ b >>= fun b ↦ settle (op.rule a b) span

/-- The recursion that writes the expression out. -/
def writing : Recursion (List Char) where
  literal v _ := shortestText v
  unary op _ operand :=
    match op.side, op.isInstant with
    | .before, true => '(' :: op.symbol.toList ++ operand ++ [')']
    | .before, false => op.symbol.toList ++ '(' :: operand ++ [')']
    | .after, true => '(' :: operand ++ op.symbol.toList ++ [')']
    | .after, false => '(' :: operand ++ ' ' :: op.symbol.toList ++ [')']
  binary op _ left right := '(' :: left ++ ' ' :: op.symbol.toList ++ ' ' :: right ++ [')']

/-- The recursion that counts the nodes. -/
def counting : Recursion Nat where
  literal _ _ := 1
  unary _ _ operand := 1 + operand
  binary _ _ left right := 1 + left + right

theorem run_valuing (expr : Expr) : valuing.run expr = expr.value := by
  induction expr with
  | literal => rfl
  | unary op operand span ih => rw [Recursion.run, ih]; rfl
  | binary op left right span ihleft ihright => rw [Recursion.run, ihleft, ihright]; rfl

theorem run_writing (expr : Expr) : writing.run expr = expr.text := by
  induction expr with
  | literal => rfl
  | unary op operand span ih => rw [Recursion.run, ih]; rfl
  | binary op left right span ihleft ihright => rw [Recursion.run, ihleft, ihright]; rfl

theorem run_counting (expr : Expr) : counting.run expr = expr.nodeCount := by
  induction expr with
  | literal => rfl
  | unary op operand span ih => rw [Recursion.run, ih]; rfl
  | binary op left right span ihleft ihright => rw [Recursion.run, ihleft, ihright]; rfl

/-! ## The first part that is too high -/

/-- A part of an expression is all of it or lower. -/
theorem IsPart.eq_or_height_lt {part expr : Expr} (h : part.IsPart expr) :
    part = expr ∨ part.height < expr.height := by
  cases h with
  | refl => exact .inl rfl
  | unary h => exact .inr (Nat.lt_succ_of_le h.height_le)
  | left h => exact .inr (Nat.lt_succ_of_le (Nat.le_trans h.height_le (Nat.le_max_left _ _)))
  | right h => exact .inr (Nat.lt_succ_of_le (Nat.le_trans h.height_le (Nat.le_max_right _ _)))

end Expr

namespace Vocabulary

variable {voc : Vocabulary} {limit : Nat} {scope : Scope} {line : Line} {expr : Expr}

/-- A line that is no expression without a limit is none under a limit. -/
theorem exists_parseWithin_eq_error (hlimit : 0 < limit) {fault : Located ReadingFault}
    (h : voc.parseWithin none scope line = .error fault) :
    ∃ fault', voc.parseWithin (some limit) scope line = .error fault' :=
  (voc.follows_parseWithin scope line hlimit).of_error (.nil limit) fault h

/-- A limit that the expression on a line does not keep shows at a part that is one too high. -/
theorem exists_parseWithin_eq_misplaced (hlimit : 0 < limit)
    (h : voc.parseWithin none scope line = .ok expr) (hheight : limit < expr.height) :
    ∃ part : Expr, part.IsPart expr ∧ part.height = limit + 1 ∧
      voc.parseWithin (some limit) scope line = misplaced part.span := by
  rcases (voc.follows_parseWithin scope line hlimit).of_ok (.nil limit) expr h with
    ⟨-, hkept⟩ | ⟨part, hpart, ⟨whole, hwhole, hpartOf⟩, hmisplaced⟩
  · exact absurd (hkept.le _ List.mem_cons_self) (Nat.not_le_of_lt hheight)
  · rw [List.mem_singleton.mp hwhole] at hpartOf
    exact ⟨part, hpartOf, hpart, hmisplaced⟩

/-- The depth that is counted beside each finished expression is its height, whatever has been read
and applied. A line that is no expression without the limit on the height is none with it, an
expression that keeps the limit is read, and one that does not is refused at a part that is one too
high and has no part below it that is. So no recursion over an expression that was read makes more
calls inside one another than the limit. -/
theorem parse_limits_height (voc : Vocabulary) (scope : Scope) (line : Line) :
    (∀ (limit : Option Nat) (tokens : List Token) (s : Stacks),
      Stacks.start.read voc scope limit tokens = .ok s → Measured s.done ∧
        ∀ isDue result, applyDue limit isDue s.waiting s.done = .ok result →
          Measured result.2) ∧
    (∀ fault, voc.parseWithin none scope line = .error fault →
      ∃ fault', voc.parse scope line = .error fault') ∧
    (∀ expr, voc.parseWithin none scope line = .ok expr → expr.height ≤ heightLimit →
      voc.parse scope line = .ok expr) ∧
    (∀ expr, voc.parseWithin none scope line = .ok expr → heightLimit < expr.height →
      ∃ part : Expr, part.IsPart expr ∧ part.height = heightLimit + 1 ∧
        (∀ below : Expr, below.IsPart part → below = part ∨ below.height ≤ heightLimit) ∧
        voc.parse scope line = .error ⟨.invalidOperation, part.span⟩) ∧
    ∀ expr, voc.parse scope line = .ok expr →
      Expr.valuing.runWithin heightLimit expr = some expr.value ∧
      Expr.writing.runWithin heightLimit expr = some expr.text ∧
      Expr.counting.runWithin heightLimit expr = some expr.nodeCount := by
  have hlimit : 0 < heightLimit := by decide
  refine ⟨?_, fun fault ↦ exists_parseWithin_eq_error hlimit, ?_, ?_, ?_⟩
  · intro limit tokens s hread
    have hs : Measured s.done :=
      (Stacks.measures_read voc scope tokens measured_nil).of_eq_ok hread
    exact ⟨hs, fun isDue result happly ↦ (measures_applyDue isDue s.waiting hs).of_eq_ok happly⟩
  · intro expr hparse hheight
    exact (voc.parseWithin_eq_ok_iff scope line hlimit).mpr ⟨hparse, hheight⟩
  · intro expr hparse hheight
    obtain ⟨part, hpart, hpartHeight, hmisplaced⟩ :=
      exists_parseWithin_eq_misplaced hlimit hparse hheight
    refine ⟨part, hpart, hpartHeight, fun below hbelow ↦ ?_, hmisplaced⟩
    rcases hbelow.eq_or_height_lt with rfl | hlt
    · exact .inl rfl
    · exact .inr (by omega)
  · intro expr hparse
    obtain ⟨-, hheight⟩ := (voc.parseWithin_eq_ok_iff scope line hlimit).mp hparse
    simp only [Expr.Recursion.runWithin_eq, if_pos hheight, Expr.run_valuing, Expr.run_writing,
      Expr.run_counting, and_self]

/-- Two negations are one too many under a limit of two. -/
example : standard.parseWithin (some 2) .bare "1+--2".toList =
    .error ⟨.invalidOperation, ⟨2, 5⟩⟩ := by rfl

end Vocabulary

end Reckoner
