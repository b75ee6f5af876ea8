import Reckoner.Proofs.Expr.Agreement
import Reckoner.Proofs.Expr.Sense

/-!
# The conventional reading of a minus

No standard operator subtracts. In the conventional reading of a line a minus directly after a value
does: it is an operator between two operands, of the order of the sum. Here the line `a - b` is read
as the sum of `a` and the negated `b`, and what binds less tightly than the negation takes the
negated operand instead of the operand.

While the two readings go on side by side their frames match: a sum with a negation stands for a
difference, and behind a value both hold values of the same sense or of the opposite one.
-/

namespace Reckoner

open Descent

/-! ## The conventional reading -/

/-- The difference, which binds as the sum does. -/
def subtraction : BinaryOperator := Standard.between "-" 0 (Rule.total₂ fun a b ↦ a - b)

namespace Item

/-- The item in the conventional reading: a negation behind a complete value is a difference. -/
def subtracting (complete : Bool) : Item → Item
  | .operator (.beside op) =>
    if complete && op.negation then .operator (.between subtraction) else .operator (.beside op)
  | item => item

theorem subtracting_false (item : Item) : item.subtracting false = item := by
  match item with
  | .operator (.beside _) | .operator (.between _) => rfl
  | .number _ | .value _ | .opening | .closing => rfl

theorem subtracting_of_not_negation {op : UnaryOperator} (h : op.negation = false)
    (complete : Bool) :
    (Item.operator (.beside op)).subtracting complete = .operator (.beside op) := by
  rw [subtracting, h, Bool.and_false]
  rfl

/-- Whether the item is an operator after a value that yields to a negation before the value. -/
def isShare : Item → Bool
  | .operator (.beside op) => op.side = .after && op.yieldsTo Standard.negation.order
  | _ => false

/-- Whether the item is an operator behind a value that does not yield to a negation before the
value. -/
def raises : Item → Bool
  | .operator (.between op) => !op.yieldsTo Standard.negation.order
  | .operator (.beside op) => op.side = .after && !op.yieldsTo Standard.negation.order
  | _ => false

/-- For the line and each open bracket, the innermost first, whether the term that is being read is
subtracted: how the item changes that. -/
def terms (subtracted : List Bool) : Item → List Bool
  | .opening => false :: subtracted
  | .closing => subtracted.tail
  | .operator (.between op) =>
    if op.order = 0 then (op == subtraction) :: subtracted.tail else subtracted
  | _ => subtracted

end Item

namespace Lexeme

/-- Lexemes in the conventional reading, behind a complete value or in front of an operand. -/
def subtracting (complete : Bool) : List Lexeme → List Lexeme
  | [] => []
  | ⟨item, span⟩ :: rest =>
    ⟨item.subtracting complete, span⟩ :: subtracting item.completes rest

/-- Whether no share in a term that is subtracted is raised directly behind it. -/
def unraised (subtracted : List Bool) : List Lexeme → Bool
  | [] => true
  | ⟨item, _⟩ :: rest =>
    !(subtracted.headD false && item.isShare && rest.head?.any (·.item.raises)) &&
      unraised (item.terms subtracted) rest

end Lexeme

namespace Conventional

/-- The lexemes on a line in the conventional reading. -/
def lexemes? (scope : Scope) (line : Line) : Option (List Lexeme) :=
  ((Token.ofLine .standard line).mapM (Token.lexeme .standard scope)).toOption.map
    (Lexeme.subtracting false)

/-- The expression on a line in the conventional reading, by descent: one operand without a context,
and nothing left. -/
def read? (scope : Scope) (line : Line) : Option Expr := do
  let items ← lexemes? scope line
  let (expr, rest) ← readOperand .standard none items
  if rest.isEmpty then some expr else none

/-- Whether no share that is subtracted on a line is raised. -/
def isUnraised (scope : Scope) (line : Line) : Bool :=
  (lexemes? scope line).any (Lexeme.unraised [false])

/-- The conventional reading, as a reader without frames in front of an operand. -/
theorem read?_eq_awaiting {scope : Scope} {line : Line} {items : List Lexeme}
    (h : lexemes? scope line = some items) :
    read? scope line = awaiting .standard [] items := by
  rw [read?, h]
  rfl

end Conventional

/-! ## The standard operators -/

/-- The negation is written the same way before a bracket as before anything else. -/
theorem Standard.orderBefore_negation (items : List Lexeme) :
    orderBefore Standard.negation items = 2 := by
  rw [orderBefore.eq_def]
  split <;> rfl

/-- A sum with an expression of the opposite sense. -/
theorem Expr.HasSense.difference {left left' right right' : Expr} {span span' : Span}
    (hleft : left.HasSense .same left') (hright : right.HasSense .opposite right') :
    HasSense .same (.binary Standard.addition left right span)
      (.binary subtraction left' right' span') := by
  have hleft : left.outcome = left'.outcome := hleft
  have hright : right.outcome = right'.outcome.map fun a ↦ -a := hright
  have hrule (a b : Float) : Standard.addition.rule a (-b) = subtraction.rule a b :=
    congrArg Except.ok (add_neg_eq_sub a b)
  rw [HasSense, outcome_binary, outcome_binary, hleft, hright]
  simp only [map_bind, hrule]
  rfl

/-! ## Frames of the two readings -/

namespace Conventional

/-- The frames of the two readings, with the sense of the values that they wait for, and for the
line and each open bracket whether the term that is being read is subtracted. -/
inductive Matches : Sense → List Bool → List Frame → List Frame → Prop
  | nil (level : Bool) : Matches .same [level] [] []
  | bracket {levels : List Bool} {frames frames' : List Frame} (level : Bool)
    (h : Matches .same levels frames frames') :
    Matches .same (level :: levels) (.bracket :: frames) (.bracket :: frames')
  | before {levels : List Bool} {frames frames' : List Frame} (op : UnaryOperator)
    (order start : Nat) (h : Matches .same levels frames frames') :
    Matches .same levels (.before op order start :: frames) (.before op order start :: frames')
  | between {levels : List Bool} {frames frames' : List Frame} {left left' : Expr}
    (op : BinaryOperator) (hleft : left.HasSense .same left')
    (h : Matches .same levels frames frames') :
    Matches .same levels (.between op left :: frames) (.between op left' :: frames')
  | factor {levels : List Bool} {frames frames' : List Frame} {left left' : Expr}
    {op : BinaryOperator} (hop : op.IsFactor) (hleft : left.HasSense .opposite left')
    (h : Matches .opposite levels frames frames') :
    Matches .same levels (.between op left :: frames) (.between op left' :: frames')
  | negation {levels : List Bool} {frames frames' : List Frame} (start : Nat)
    (h : Matches .opposite levels frames frames') :
    Matches .same levels (.before Standard.negation 2 start :: frames) frames'
  | term {levels : List Bool} {frames frames' : List Frame} {left left' : Expr}
    (hleft : left.HasSense .same left') (h : Matches .same (true :: levels) frames frames') :
    Matches .opposite (true :: levels) (.between Standard.addition left :: frames)
      (.between subtraction left' :: frames')

/-- The frames and the value that the two readings hold behind a value. -/
structure Corresponds (sense : Sense) (levels : List Bool) (held held' : List Frame × Expr) :
    Prop where
  frames : Matches sense levels held.1 held'.1
  value : held.2.HasSense sense held'.2

section

variable {sense : Sense} {levels : List Bool} {frames frames' : List Frame} {expr expr' : Expr}
  {yields : Nat → Bool}

/-- Where values of the opposite sense go in, the term is subtracted. -/
theorem Matches.headD_of_opposite (h : Matches .opposite levels frames frames') :
    levels.headD false = true := by
  cases h
  rfl

/-- An operator that yields to products and negations closes frames of both readings. -/
theorem Matches.settle_of_loose (h : Matches sense levels frames frames')
    (hexpr : expr.HasSense sense expr') (hfactor : yields 1 = true) (hnegation : yields 2 = true) :
    ∃ sense', Corresponds sense' levels (Descent.settle yields frames expr)
      (Descent.settle yields frames' expr') := by
  induction h generalizing expr expr' with
  | nil level => exact ⟨.same, .nil level, hexpr⟩
  | bracket level h => exact ⟨.same, .bracket level h, hexpr⟩
  | before op order start h ih =>
    cases hyields : yields order with
    | true =>
      rw [settle_cons_of_yields rfl hyields, settle_cons_of_yields rfl hyields]
      exact ih (hexpr.unary op)
    | false =>
      rw [settle_cons_of_not rfl hyields, settle_cons_of_not rfl hyields]
      exact ⟨.same, .before op order start h, hexpr⟩
  | between op hleft h ih =>
    cases hyields : yields op.order with
    | true =>
      rw [settle_cons_of_yields rfl hyields, settle_cons_of_yields rfl hyields]
      exact ih (hleft.binary op hexpr)
    | false =>
      rw [settle_cons_of_not rfl hyields, settle_cons_of_not rfl hyields]
      exact ⟨.same, .between op hleft h, hexpr⟩
  | @factor _ _ _ _ _ op hop hleft h ih =>
    have hyields : yields op.order = true := by rw [hop.order_eq, hfactor]
    rw [settle_cons_of_yields rfl hyields, settle_cons_of_yields rfl hyields]
    exact ih (hleft.factor hop hexpr)
  | negation start h ih =>
    rw [settle_cons_of_yields rfl hnegation]
    exact ih hexpr.negation
  | term hleft h ih =>
    cases hyields : yields 0 with
    | true =>
      rw [settle_cons_of_yields rfl hyields, settle_cons_of_yields rfl hyields]
      exact ih (hleft.difference hexpr)
    | false =>
      rw [settle_cons_of_not rfl hyields, settle_cons_of_not rfl hyields]
      exact ⟨.opposite, .term hleft h, hexpr⟩

/-- An operator that yields to no sum, product or negation closes the same frames in both
readings. -/
theorem Matches.settle_of_tight (h : Matches .same levels frames frames')
    (hexpr : expr.HasSense .same expr') (hterm : yields 0 = false) (hfactor : yields 1 = false)
    (hnegation : yields 2 = false) :
    Corresponds .same levels (Descent.settle yields frames expr)
      (Descent.settle yields frames' expr') := by
  generalize hsense : Sense.same = sense at h
  induction h generalizing expr expr' with
  | nil level => exact ⟨.nil level, hexpr⟩
  | bracket level h => exact ⟨.bracket level h, hexpr⟩
  | before op order start h ih =>
    cases hyields : yields order with
    | true =>
      rw [settle_cons_of_yields rfl hyields, settle_cons_of_yields rfl hyields]
      exact ih (hexpr.unary op) rfl
    | false =>
      rw [settle_cons_of_not rfl hyields, settle_cons_of_not rfl hyields]
      exact ⟨.before op order start h, hexpr⟩
  | between op hleft h ih =>
    cases hyields : yields op.order with
    | true =>
      rw [settle_cons_of_yields rfl hyields, settle_cons_of_yields rfl hyields]
      exact ih (hleft.binary op hexpr) rfl
    | false =>
      rw [settle_cons_of_not rfl hyields, settle_cons_of_not rfl hyields]
      exact ⟨.between op hleft h, hexpr⟩
  | @factor _ _ _ _ _ op hop hleft h =>
    have hyields : yields op.order = false := by rw [hop.order_eq, hfactor]
    rw [settle_cons_of_not rfl hyields, settle_cons_of_not rfl hyields]
    exact ⟨.factor hop hleft h, hexpr⟩
  | negation start h =>
    -- The conventional reading has no frame for the negation, and stops at the difference.
    cases h with
    | term hleft h =>
      rw [settle_cons_of_not rfl hnegation, settle_cons_of_not rfl hterm]
      exact ⟨.negation start (.term hleft h), hexpr⟩
  | term => cases hsense

/-- An operator that yields to everything closes the frames up to the innermost bracket, and begins
a new term. -/
theorem Matches.settle_of_all (h : Matches sense levels frames frames')
    (hexpr : expr.HasSense sense expr') (hall : ∀ order, yields order = true) (level : Bool) :
    Corresponds .same (level :: levels.tail) (Descent.settle yields frames expr)
      (Descent.settle yields frames' expr') := by
  induction h generalizing expr expr' with
  | nil => exact ⟨.nil level, hexpr⟩
  | bracket _ h => exact ⟨.bracket level h, hexpr⟩
  | before op order start h ih =>
    rw [settle_cons_of_yields rfl (hall _), settle_cons_of_yields rfl (hall _)]
    exact ih (hexpr.unary op)
  | between op hleft h ih =>
    rw [settle_cons_of_yields rfl (hall _), settle_cons_of_yields rfl (hall _)]
    exact ih (hleft.binary op hexpr)
  | factor hop hleft h ih =>
    rw [settle_cons_of_yields rfl (hall _), settle_cons_of_yields rfl (hall _)]
    exact ih (hleft.factor hop hexpr)
  | negation start h ih =>
    rw [settle_cons_of_yields rfl (hall _)]
    exact ih hexpr.negation
  | term hleft h ih =>
    rw [settle_cons_of_yields rfl (hall _), settle_cons_of_yields rfl (hall _)]
    exact ih (hleft.difference hexpr)

/-- A bracket that closes in one reading closes in the other. -/
theorem Matches.leaveBracket? (h : Matches sense levels frames frames')
    (hexpr : expr.HasSense sense expr') {held : List Frame × Expr}
    (hleave : leaveBracket? frames expr = some held) :
    ∃ held', Descent.leaveBracket? frames' expr' = some held' ∧
      Corresponds .same levels.tail held held' := by
  induction h generalizing expr expr' with
  | nil => cases hleave
  | bracket level h =>
    cases hleave
    exact ⟨_, rfl, h, hexpr⟩
  | before op order start h ih => exact ih (hexpr.unary op) hleave
  | between op hleft h ih => exact ih (hleft.binary op hexpr) hleave
  | factor hop hleft h ih => exact ih (hleft.factor hop hexpr) hleave
  | negation start h ih => exact ih hexpr.negation hleave
  | term hleft h ih => exact ih (hleft.difference hexpr) hleave

/-- At the end of a line both readings have the same outcome. -/
theorem Matches.closeAll (h : Matches sense levels frames frames')
    (hexpr : expr.HasSense sense expr') :
    (closeAll frames expr).HasSense .same (Descent.closeAll frames' expr') := by
  induction h generalizing expr expr' with
  | nil => exact hexpr
  | bracket level h ih => exact ih hexpr
  | before op order start h ih => exact ih (hexpr.unary op)
  | between op hleft h ih => exact ih (hleft.binary op hexpr)
  | factor hop hleft h ih => exact ih (hleft.factor hop hexpr)
  | negation start h ih => exact ih hexpr.negation
  | term hleft h ih => exact ih (hleft.difference hexpr)

/-- An operator of the order of a product takes what both readings hold as its left operand. -/
theorem Corresponds.factor {op : BinaryOperator} (hop : op.IsFactor)
    {held held' : List Frame × Expr} (h : Corresponds sense levels held held') :
    Matches .same levels (.between op held.2 :: held.1) (.between op held'.2 :: held'.1) := by
  cases sense with
  | same => exact .between op h.value h.frames
  | opposite => exact .factor hop h.value h.frames

end

end Conventional

end Reckoner
