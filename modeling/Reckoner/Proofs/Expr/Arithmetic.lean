import Reckoner.Calculator
import Reckoner.Proofs.Expr.Conventional
import Reckoner.Proofs.Expr.Written
import Reckoner.Proofs.Number.Whole

/-!
# Arithmetic on whole numbers

A tree of sums, differences and products of natural numbers is written in the conventional way, with
a bracket only where an operand would bind less tightly than its place asks for. The line has the
value of the tree, if no whole number in it exceeds the limit up to which all of them are doubles.

The line is read with another tree than it was written from. In `a - b * c * d` the negation takes
`b` alone, the products take the negated `b`, and a sum takes all of that. So a product need not be
an expression of its own: what is shown is that its first factor is read as a primary, and that the
line goes on from there to the value, or from the negated factor to the negated value.
-/

namespace Reckoner

open Descent

/-! ## Trees -/

/-- The operations of arithmetic on whole numbers. -/
inductive Operation where
  | sum
  | difference
  | product
deriving DecidableEq, Repr

namespace Operation

/-- The character between the operands. -/
def sign : Operation → Char
  | sum => '+'
  | difference => '-'
  | product => '*'

/-- How tightly the operation binds by convention. -/
def order : Operation → Nat
  | sum | difference => 0
  | product => 1

/-- The result on whole numbers. -/
def apply : Operation → Int → Int → Int
  | sum, a, b => a + b
  | difference, a, b => a - b
  | product, a, b => a * b

/-- The standard operator of the character. No standard operator subtracts. -/
def operator : Operation → Operator
  | sum => .between Standard.addition
  | difference => .beside Standard.negation
  | product => .between Standard.multiplication

theorem sign?_sign (op : Operation) :
    Vocabulary.standard.sign? op.sign = some op.operator := by
  cases op <;> rfl

end Operation

/-- Natural numbers that are joined by operations. -/
inductive Arithmetic where
  | number (n : Nat)
  | operation (op : Operation) (left right : Arithmetic)
deriving DecidableEq, Repr

namespace Arithmetic

/-- The whole number that the tree comes to. -/
def value : Arithmetic → Int
  | number n => n
  | operation op left right => op.apply left.value right.value

/-- The number of operations on a longest way from the root to a number. -/
def levels : Arithmetic → Nat
  | number _ => 0
  | operation _ left right => max left.levels right.levels + 1

/-- The order of the operation at the root. A number binds more tightly than all operations. -/
def order : Arithmetic → Nat
  | number _ => 2
  | operation op _ _ => op.order

/-- No tree in this one comes to a number beyond the limit. -/
def IsExact : Arithmetic → Prop
  | number n => n ≤ wholeLimit
  | operation op left right =>
    left.IsExact ∧ right.IsExact ∧ (op.apply left.value right.value).natAbs ≤ wholeLimit

instance decidableIsExact : (tree : Arithmetic) → Decidable tree.IsExact
  | number n => inferInstanceAs (Decidable (n ≤ wholeLimit))
  | operation _ left right =>
    have := decidableIsExact left
    have := decidableIsExact right
    inferInstanceAs (Decidable (left.IsExact ∧ right.IsExact ∧ _))

/-- The tree is written in a place that asks for an order. What binds less tightly stands in a
bracket, and what does not stands without one. On the left of an operation its own order is asked
for, on the right a higher one, and any blanks may stand around its character. -/
inductive IsText : Nat → Arithmetic → List Char → Prop
  | number (place n : Nat) : IsText place (number n) (digits n)
  | operation {place : Nat} {op : Operation} {left right : Arithmetic}
    {text blanks blanks' text' : List Char} (hplace : place ≤ op.order)
    (hleft : IsText op.order left text) (hright : IsText (op.order + 1) right text')
    (hblanks : ∀ c ∈ blanks, isBlank c = true) (hblanks' : ∀ c ∈ blanks', isBlank c = true) :
    IsText place (operation op left right) (text ++ blanks ++ op.sign :: blanks' ++ text')
  | bracket {place : Nat} {tree : Arithmetic} {text : List Char} (hplace : tree.order < place)
    (h : IsText 0 tree text) : IsText place tree ('(' :: text ++ [')'])

/-- Every tree is written in every place. -/
theorem exists_isText (tree : Arithmetic) : ∀ place, ∃ text, IsText place tree text := by
  induction tree with
  | number n => exact fun place ↦ ⟨_, .number place n⟩
  | operation op left right ihleft ihright =>
    intro place
    obtain ⟨text, hleft⟩ := ihleft op.order
    obtain ⟨text', hright⟩ := ihright (op.order + 1)
    have hnone : ∀ c ∈ [], isBlank c = true := List.forall_mem_nil _
    rcases Nat.lt_or_ge op.order place with hlt | hle
    · exact ⟨_, .bracket hlt (.operation (Nat.zero_le _) hleft hright hnone hnone)⟩
    · exact ⟨_, .operation hle hleft hright hnone hnone⟩

/-- A tree ends with a digit or a bracket. -/
theorem IsText.exists_eq_concat {place : Nat} {tree : Arithmetic} {text : List Char}
    (h : IsText place tree text) : ∃ start c, text = start ++ [c] ∧ isBlank c = false := by
  induction h with
  | number place n =>
    have hne : digits n ≠ [] := Nat.toDigits_ne_nil
    refine ⟨_, _, (List.dropLast_append_getLast hne).symm, ?_⟩
    exact not_isBlank_of_isDigit (isDigit_of_mem_digits n _ (List.getLast_mem hne))
  | operation hplace hleft hright hblanks hblanks' ihleft ihright =>
    obtain ⟨start, c, rfl, hc⟩ := ihright
    exact ⟨_, c, (List.append_assoc _ start [c]).symm, hc⟩
  | @bracket _ _ text hplace h ih => exact ⟨'(' :: text, ')', rfl, by decide⟩

theorem IsText.trimEnd_eq {place : Nat} {tree : Arithmetic} {text : List Char}
    (h : IsText place tree text) : Line.trimEnd text = text := by
  obtain ⟨start, c, rfl, hc⟩ := h.exists_eq_concat
  simp [Line.trimEnd, hc]

end Arithmetic

/-! ## Computing whole numbers -/

/-- An expression is computed to a whole number, and is at most so high. -/
structure Expr.Yields (expr : Expr) (n : Int) (bound : Nat) : Prop where
  value : ∃ a, expr.value = .ok a ∧ IsExactly a n
  height : expr.height ≤ bound

namespace Expr.Yields

variable {expr left right : Expr} {m n : Int} {bound bound' : Nat} {a : Float}

/-- A whole number is finite, and so it is a result. -/
theorem settle_eq (h : IsExactly a n) (span : Span) : settle (.ok a) span = .ok a := by
  rw [settle, if_pos h.isFinite]

theorem mono (h : expr.Yields n bound) (hbound : bound ≤ bound') : expr.Yields n bound' :=
  ⟨h.value, h.height.trans hbound⟩

theorem literal {k : Nat} (hlimit : k ≤ wholeLimit) (span : Span) :
    (Expr.literal (readDecimal (digits k)) span).Yields k 1 := by
  have hexact := isExactly_readDecimal_digits hlimit
  exact ⟨⟨_, settle_eq hexact span, hexact⟩, le_rfl⟩

theorem negation (h : expr.Yields n bound) (span : Span) :
    (Expr.unary Standard.negation expr span).Yields (-n) (bound + 1) := by
  obtain ⟨a, ha, hexact⟩ := h.value
  refine ⟨⟨-a, ?_, hexact.neg⟩, Nat.succ_le_succ h.height⟩
  rw [Expr.value, ha]
  exact settle_eq hexact.neg span

/-- An operation between two operands that is exact on their values. -/
theorem binary {op : BinaryOperator} {k : Int} (hleft : left.Yields m bound)
    (hright : right.Yields n bound')
    (hrule : ∀ a b, IsExactly a m → IsExactly b n → ∃ c, op.rule a b = .ok c ∧ IsExactly c k)
    (span : Span) : (Expr.binary op left right span).Yields k (max bound bound' + 1) := by
  obtain ⟨a, ha, hexact⟩ := hleft.value
  obtain ⟨b, hb, hexact'⟩ := hright.value
  obtain ⟨c, hc, hexact''⟩ := hrule a b hexact hexact'
  refine ⟨⟨c, ?_, hexact''⟩, Nat.succ_le_succ (max_le_max hleft.height hright.height)⟩
  rw [Expr.value, ha, hb]
  change settle (op.rule a b) span = .ok c
  rw [hc, settle_eq hexact'']

theorem addition (hleft : left.Yields m bound) (hright : right.Yields n bound')
    (hlimit : (m + n).natAbs ≤ wholeLimit) (span : Span) :
    (Expr.binary Standard.addition left right span).Yields (m + n) (max bound bound' + 1) :=
  hleft.binary hright (fun a b ha hb ↦ ⟨a + b, rfl, ha.add hb hlimit⟩) span

theorem multiplication (hleft : left.Yields m bound) (hright : right.Yields n bound')
    (hlimit : (m * n).natAbs ≤ wholeLimit) (span : Span) :
    (Expr.binary Standard.multiplication left right span).Yields (m * n)
      (max bound bound' + 1) :=
  hleft.binary hright (fun a b ha hb ↦ ⟨a * b, rfl, ha.mul hb hlimit⟩) span

end Expr.Yields

namespace Arithmetic

/-! ## Reading -/

/-- No expression that the tree is read as is higher. -/
def bound (tree : Arithmetic) : Nat := 2 * tree.levels + 1

/-- Behind a value the lexemes end what an operator of the order given, or of a higher one, waits
for. -/
def Closes (order : Nat) (lexemes : List Lexeme) : Prop :=
  ∀ context, order ≤ context → ∀ expr,
    readOn .standard (some context) expr lexemes = some (expr, lexemes)

/-- The lexemes begin with a primary that is computed to the tree. -/
def ReadsPrimary (tree : Arithmetic) (lexemes others : List Lexeme) : Prop :=
  ∃ expr, readPrimary .standard lexemes = some (expr, others) ∧
    expr.Yields tree.value tree.bound

/-- An expression for a value, or for its opposite, goes on over the lexemes to one for another
value, or for its opposite, as long as products are absorbed. -/
def GoesOn (start stop : Int) (low high : Nat) (lexemes others : List Lexeme) : Prop :=
  ∀ ⦃sign expr more⦄, sign.natAbs = 1 → expr.Yields (sign * start) (low + more) →
    ∃ expr', expr'.Yields (sign * stop) (high + more) ∧
      ∀ context : Option Nat, context.any Standard.multiplication.yieldsTo = false →
        readOn .standard context expr lexemes = readOn .standard context expr' others

/-- The lexemes begin with a primary that a negation takes alone, and go on from it to the tree. -/
inductive ReadsProduct (tree : Arithmetic) (lexemes others : List Lexeme) : Prop
  | intro {first : Expr} {middle : List Lexeme} {start : Int} {low : Nat}
    (hprimary : readPrimary .standard lexemes = some (first, middle))
    (hyields : first.Yields start low) (hcloses : Closes Standard.negation.order middle)
    (hgoesOn : GoesOn start tree.value low tree.bound middle others)

/-- The lexemes begin an operand that goes on from a value, as long as products are absorbed. -/
def ReadsTerm (n : Int) (high : Nat) (lexemes others : List Lexeme) : Prop :=
  ∃ expr, expr.Yields n high ∧
    ∀ context : Option Nat, context.any Standard.multiplication.yieldsTo = false →
      readOperand .standard context lexemes = readOn .standard context expr others

/-- The lexemes begin an operand without a context that goes on from a value. -/
def ReadsSum (n : Int) (high : Nat) (lexemes others : List Lexeme) : Prop :=
  ∃ expr, expr.Yields n high ∧
    readOperand .standard none lexemes = readOn .standard none expr others

/-- The lexemes begin with the tree as it is read in a place. -/
def Reads : Nat → Arithmetic → List Lexeme → List Lexeme → Prop
  | 0, tree, lexemes, others => Closes 0 others → ReadsSum tree.value tree.bound lexemes others
  | 1, tree, lexemes, others => Closes 1 others → ReadsProduct tree lexemes others
  | _ + 2, tree, lexemes, others => ReadsPrimary tree lexemes others

section

variable {tree left right : Arithmetic} {lexemes middle others : List Lexeme} {order : Nat}
  {span : Span}

theorem closes_nil : Closes order [] := fun _ _ _ ↦ readOn_of_nothing rfl

theorem closes_closing : Closes order (⟨.closing, span⟩ :: others) :=
  fun _ _ expr ↦ readOn_closing _ expr

/-- An operation yields to the operators of its own order and of higher ones. -/
theorem closes_operator {op : Operation} (h : op.order ≤ order) :
    Closes order (⟨.operator op.operator, span⟩ :: others) := by
  intro context hcontext expr
  have hyields : op.order ≤ context := h.trans hcontext
  cases op with
  | sum => exact readOn_between_of_yieldsTo rfl (decide_eq_true hyields)
  | difference =>
    exact readOn_between_of_yieldsTo (arrival_before rfl _ _) (decide_eq_true hyields)
  | product => exact readOn_between_of_yieldsTo rfl (decide_eq_true hyields)

theorem Closes.mono {order' : Nat} (h : Closes order lexemes) (hle : order ≤ order') :
    Closes order' lexemes := fun context hcontext ↦ h context (hle.trans hcontext)

/-- A primary is a product without further factors. -/
theorem ReadsPrimary.readsProduct (h : ReadsPrimary tree lexemes others)
    (hcloses : Closes 1 others) : ReadsProduct tree lexemes others := by
  obtain ⟨expr, hprimary, hyields⟩ := h
  refine .intro hprimary hyields (hcloses.mono (by decide)) ?_
  intro sign expr more hsign hexpr
  exact ⟨expr, hexpr, fun _ _ ↦ rfl⟩

/-- A product is read as an operand. -/
theorem ReadsProduct.readsTerm (h : ReadsProduct tree lexemes others) :
    ReadsTerm tree.value tree.bound lexemes others := by
  obtain @⟨first, middle, start, low, hprimary, hyields, -, hgoesOn⟩ := h
  have hfirst : first.Yields (1 * start) (low + 0) := by rwa [one_mul]
  obtain ⟨expr, hexpr, hread⟩ := hgoesOn rfl hfirst
  rw [one_mul] at hexpr
  refine ⟨expr, hexpr, fun context hcontext ↦ ?_⟩
  rw [readOperand_of_readPrimary hprimary, hread context hcontext]

/-- A negation takes the first factor, and its operand goes on to the opposite of the product. -/
theorem ReadsProduct.readsTerm_negation (h : ReadsProduct tree lexemes others) :
    ReadsTerm (-tree.value) (tree.bound + 1)
      (⟨.operator (.beside Standard.negation), span⟩ :: lexemes) others := by
  obtain @⟨first, middle, start, low, hprimary, hyields, hcloses, hgoesOn⟩ := h
  have hnegated := hyields.negation ⟨span.start, first.span.stop⟩
  rw [← neg_one_mul] at hnegated
  obtain ⟨expr, hexpr, hread⟩ := hgoesOn rfl hnegated
  rw [neg_one_mul] at hexpr
  have hbefore : readPrimary .standard
      (⟨.operator (.beside Standard.negation), span⟩ :: lexemes) =
        some (.unary Standard.negation first ⟨span.start, first.span.stop⟩, middle) := by
    rw [readPrimary_before rfl, Standard.orderBefore_negation, readOperand_of_readPrimary hprimary,
      hcloses 2 le_rfl]
    rfl
  refine ⟨expr, hexpr, fun context hcontext ↦ ?_⟩
  rw [readOperand_of_readPrimary hbefore, hread context hcontext]

theorem ReadsTerm.readsSum {n : Int} {high : Nat} (h : ReadsTerm n high lexemes others) :
    ReadsSum n high lexemes others := by
  obtain ⟨expr, hexpr, hread⟩ := h
  exact ⟨expr, hexpr, hread none rfl⟩

/-- A primary is read in every place. -/
theorem ReadsPrimary.reads (h : ReadsPrimary tree lexemes others) (place : Nat) :
    Reads place tree lexemes others := by
  match place with
  | 0 => exact fun hcloses ↦ (h.readsProduct (hcloses.mono zero_le_one)).readsTerm.readsSum
  | 1 => exact h.readsProduct
  | _ + 2 => exact h

/-- What is read up to a closing bracket is read in the bracket. -/
theorem readsPrimary_bracket {span' : Span}
    (h : ReadsSum tree.value tree.bound lexemes (⟨.closing, span'⟩ :: others)) :
    ReadsPrimary tree (⟨.opening, span⟩ :: lexemes) others := by
  obtain ⟨expr, hyields, hread⟩ := h
  rw [readOn_closing] at hread
  exact ⟨expr, readPrimary_bracket hread, hyields⟩

/-- A further factor. -/
theorem ReadsProduct.product
    (hleft : ReadsProduct left lexemes
      (⟨.operator (.between Standard.multiplication), span⟩ :: middle))
    (hright : ReadsPrimary right middle others) (hcloses : Closes 1 others)
    (hlimit : (left.value * right.value).natAbs ≤ wholeLimit) :
    ReadsProduct (operation .product left right) lexemes others := by
  obtain @⟨first, chain, start, low, hprimary, hyields, hchain, hgoesOn⟩ := hleft
  obtain ⟨factor, hfactor, hvalue⟩ := hright
  refine .intro hprimary hyields hchain ?_
  intro sign expr more hsign hexpr
  obtain ⟨expr', hexpr', hread⟩ := hgoesOn hsign hexpr
  have hlimit' : (sign * left.value * right.value).natAbs ≤ wholeLimit := by
    rw [mul_assoc, Int.natAbs_mul, hsign, one_mul]
    exact hlimit
  have hproduct := hexpr'.multiplication hvalue hlimit' (expr'.span.hull factor.span)
  rw [mul_assoc] at hproduct
  have hbound : max (left.bound + more) right.bound + 1 ≤
      (operation .product left right).bound + more := by
    simp only [bound, levels]
    omega
  refine ⟨_, hproduct.mono hbound, fun context hcontext ↦ ?_⟩
  have hoperand : readOperand .standard (some Standard.multiplication.order) middle =
      some (factor, others) := by
    rw [readOperand_of_readPrimary hfactor]
    exact hcloses 1 le_rfl factor
  rw [hread context hcontext, readOn_between rfl hcontext, hoperand, Option.bind_some]

/-- A further term, behind an addition that is written or put in. -/
theorem ReadsSum.add {m n : Int} {high high' : Nat} {behind : List Lexeme}
    (hleft : ReadsSum m high lexemes behind)
    (harrival : arrival .standard behind = .between Standard.addition middle)
    (hright : ReadsTerm n high' middle others) (hcloses : Closes 0 others)
    (hlimit : (m + n).natAbs ≤ wholeLimit) :
    ReadsSum (m + n) (max high high' + 1) lexemes others := by
  obtain ⟨expr, hexpr, hread⟩ := hleft
  obtain ⟨term, hterm, hreadterm⟩ := hright
  have hoperand : readOperand .standard (some Standard.addition.order) middle =
      some (term, others) := by
    rw [hreadterm (some Standard.addition.order) rfl]
    exact hcloses 0 le_rfl term
  refine ⟨_, hexpr.addition hterm hlimit (expr.span.hull term.span), ?_⟩
  rw [hread, readOn_between harrival rfl, hoperand, Option.bind_some]

theorem ReadsSum.mono {n : Int} {high high' : Nat} (h : ReadsSum n high lexemes others)
    (hle : high ≤ high') : ReadsSum n high' lexemes others := by
  obtain ⟨expr, hexpr, hread⟩ := h
  exact ⟨expr, hexpr.mono hle, hread⟩

theorem ReadsSum.sum
    (hleft : ReadsSum left.value left.bound lexemes
      (⟨.operator (.between Standard.addition), span⟩ :: middle))
    (hright : ReadsProduct right middle others) (hcloses : Closes 0 others)
    (hlimit : (left.value + right.value).natAbs ≤ wholeLimit) :
    ReadsSum (left.value + right.value) (operation .sum left right).bound lexemes others := by
  have hbound : max left.bound right.bound + 1 ≤ (operation .sum left right).bound := by
    simp only [bound, levels]
    omega
  exact (hleft.add rfl hright.readsTerm hcloses hlimit).mono hbound

/-- What is subtracted is added with the opposite value, and is higher by the negation. -/
theorem ReadsSum.difference
    (hleft : ReadsSum left.value left.bound lexemes
      (⟨.operator (.beside Standard.negation), span⟩ :: middle))
    (hright : ReadsProduct right middle others) (hcloses : Closes 0 others)
    (hlimit : (left.value - right.value).natAbs ≤ wholeLimit) :
    ReadsSum (left.value - right.value) (operation .difference left right).bound lexemes
      others := by
  have hbound : max left.bound (right.bound + 1) + 1 ≤
      (operation .difference left right).bound := by
    simp only [bound, levels]
    omega
  rw [sub_eq_add_neg] at hlimit ⊢
  have hsum := hleft.add (arrival_before rfl span middle) hright.readsTerm_negation hcloses hlimit
  exact hsum.mono hbound

/-- An operation is read in the places where it is written without a bracket. -/
theorem Reads.operation {place : Nat} {op : Operation} (hplace : place ≤ op.order)
    (hleft : Reads op.order left lexemes (⟨.operator op.operator, span⟩ :: middle))
    (hright : Reads (op.order + 1) right middle others)
    (hlimit : (op.apply left.value right.value).natAbs ≤ wholeLimit) :
    Reads place (.operation op left right) lexemes others := by
  have hcloses : Closes op.order (⟨.operator op.operator, span⟩ :: middle) := closes_operator le_rfl
  cases op with
  | sum =>
    have hsum : Closes 0 _ → ReadsSum left.value left.bound lexemes _ := hleft
    have hproduct : Closes 1 others → ReadsProduct right middle others := hright
    cases Nat.le_zero.mp hplace
    intro hothers
    exact (hsum hcloses).sum (hproduct (hothers.mono zero_le_one)) hothers hlimit
  | difference =>
    have hsum : Closes 0 _ → ReadsSum left.value left.bound lexemes _ := hleft
    have hproduct : Closes 1 others → ReadsProduct right middle others := hright
    cases Nat.le_zero.mp hplace
    intro hothers
    exact (hsum hcloses).difference (hproduct (hothers.mono zero_le_one)) hothers hlimit
  | product =>
    have hproduct : Closes 1 _ → ReadsProduct left lexemes _ := hleft
    have hreads (hothers : Closes 1 others) :
        ReadsProduct (.operation .product left right) lexemes others :=
      (hproduct hcloses).product hright hothers hlimit
    match place, hplace with
    | 0, _ => exact fun hothers ↦ (hreads (hothers.mono zero_le_one)).readsTerm.readsSum
    | 1, _ => exact hreads

end

/-! ## Items -/

/-- Lexemes that begin with the items begin with the tree, as it is read in a place. -/
def IsRead (place : Nat) (tree : Arithmetic) (items : List Item) : Prop :=
  ∀ ⦃lexemes rest⦄, lexemes.map Lexeme.item = items ++ rest →
    ∃ others, others.map Lexeme.item = rest ∧ Reads place tree lexemes others

/-- The characters write the items, in front of characters that do not make a number longer. -/
def IsWritten (text : List Char) (items : List Item) : Prop :=
  ∀ ⦃scope line rest⦄, Stops isNumberChar line → Vocabulary.standard.Writes scope line rest →
    Vocabulary.standard.Writes scope (text ++ line) (items ++ rest)

section

variable {tree left right : Arithmetic} {place : Nat} {op : Operation}
  {text text' blanks blanks' : List Char} {items items' : List Item}

theorem isRead_number {n : Nat} (hlimit : n ≤ wholeLimit) :
    IsRead place (number n) [.number (readDecimal (digits n))] := by
  intro lexemes rest hitems
  obtain ⟨span, others, rfl, hothers⟩ := exists_cons_of_map_eq hitems
  have hprimary : ReadsPrimary (number n) (⟨.number (readDecimal (digits n)), span⟩ :: others)
      others := ⟨_, readPrimary_number _, .literal hlimit span⟩
  exact ⟨others, hothers, hprimary.reads place⟩

theorem isRead_bracket (h : IsRead 0 tree items) :
    IsRead place tree (.opening :: items ++ [.closing]) := by
  intro lexemes rest hitems
  rw [List.append_assoc, List.cons_append] at hitems
  obtain ⟨span, inside, rfl, hinside⟩ := exists_cons_of_map_eq hitems
  obtain ⟨closed, hclosed, hreads⟩ := h hinside
  obtain ⟨span', others, rfl, hothers⟩ := exists_cons_of_map_eq hclosed
  have hprimary : ReadsPrimary tree (⟨.opening, span⟩ :: inside) others :=
    readsPrimary_bracket (hreads closes_closing)
  exact ⟨others, hothers, hprimary.reads place⟩

theorem isRead_operation (hplace : place ≤ op.order) (hleft : IsRead op.order left items)
    (hright : IsRead (op.order + 1) right items')
    (hlimit : (op.apply left.value right.value).natAbs ≤ wholeLimit) :
    IsRead place (operation op left right) (items ++ .operator op.operator :: items') := by
  intro lexemes rest hitems
  rw [List.append_assoc] at hitems
  obtain ⟨behind, hbehind, hreadsleft⟩ := hleft hitems
  obtain ⟨span, middle, rfl, hmiddle⟩ := exists_cons_of_map_eq hbehind
  obtain ⟨others, hothers, hreadsright⟩ := hright hmiddle
  exact ⟨others, hothers, .operation hplace hreadsleft hreadsright hlimit⟩

theorem isWritten_number (n : Nat) :
    IsWritten (digits n) [.number (readDecimal (digits n))] := by
  intro scope line rest hstops hline
  have hpositional : IsPositional (digits n) :=
    .whole Nat.toDigits_ne_nil (isDigit_of_mem_digits n)
  exact hline.positional hpositional hstops

theorem isWritten_bracket (h : IsWritten text items) :
    IsWritten ('(' :: text ++ [')']) (.opening :: items ++ [.closing]) := by
  intro scope line rest hstops hline
  have hparts : Vocabulary.standard.Parts (')' :: line) := .closing
  have hinside := h hparts.number hline.closing
  simpa using hinside.opening

/-- Blanks do not go on with a number. -/
theorem stops_blanks {line : List Char} (hblanks : ∀ c ∈ blanks, isBlank c = true)
    (hstops : Stops isNumberChar line) : Stops isNumberChar (blanks ++ line) := by
  cases blanks with
  | nil => exact hstops
  | cons c blanks =>
    rintro _ ⟨⟩
    have hblank : CharUse.of .standard c = .blank :=
      (CharUse.Is.blank (hblanks c List.mem_cons_self)).of_eq
    refine Bool.eq_false_iff.mpr fun hnumber ↦ ?_
    rcases isNumberChar_iff.mp hnumber with h | h | h <;> rw [hblank] at h <;> cases h

theorem writes_blanks {scope : Scope} {line : List Char} {rest : List Item}
    (hblanks : ∀ c ∈ blanks, isBlank c = true)
    (h : Vocabulary.standard.Writes scope line rest) :
    Vocabulary.standard.Writes scope (blanks ++ line) rest := by
  induction blanks with
  | nil => exact h
  | cons c blanks ih =>
    have htail := ih fun d hd ↦ hblanks d (List.mem_cons_of_mem c hd)
    exact htail.blank (hblanks c List.mem_cons_self)

theorem isWritten_operation (hleft : IsWritten text items) (hright : IsWritten text' items')
    (hblanks : ∀ c ∈ blanks, isBlank c = true) (hblanks' : ∀ c ∈ blanks', isBlank c = true) :
    IsWritten (text ++ blanks ++ op.sign :: blanks' ++ text')
      (items ++ .operator op.operator :: items') := by
  intro scope line rest hstops hline
  have hoperand := writes_blanks hblanks' (hright hstops hline)
  have hsign := writes_blanks hblanks (hoperand.sign op.sign?_sign)
  have hparts : Vocabulary.standard.Parts (op.sign :: (blanks' ++ (text' ++ line))) :=
    .sign op.sign?_sign
  simpa using hleft (stops_blanks hblanks hparts.number) hsign

/-- The text of an exact tree writes items that are read as the tree. -/
theorem IsText.exists_items (h : IsText place tree text) (hexact : tree.IsExact) :
    ∃ items, IsWritten text items ∧ IsRead place tree items := by
  induction h with
  | number place n => exact ⟨_, isWritten_number n, isRead_number hexact⟩
  | operation hplace hleft hright hblanks hblanks' ihleft ihright =>
    obtain ⟨hexactleft, hexactright, hlimit⟩ := hexact
    obtain ⟨items, hwritten, hread⟩ := ihleft hexactleft
    obtain ⟨items', hwritten', hread'⟩ := ihright hexactright
    exact ⟨_, isWritten_operation hwritten hwritten' hblanks hblanks',
      isRead_operation hplace hread hread' hlimit⟩
  | bracket hplace h ih =>
    obtain ⟨items, hwritten, hread⟩ := ih hexact
    exact ⟨_, isWritten_bracket hwritten, isRead_bracket hread⟩

/-- A line with the text of an exact tree is read, and the expression is computed to the tree. -/
theorem IsText.exists_parse (h : IsText 0 tree text) (hlevels : tree.levels ≤ 200)
    (hexact : tree.IsExact) (scope : Scope) :
    ∃ expr, Vocabulary.standard.parse scope text = .ok expr ∧
      expr.Yields tree.value heightLimit := by
  obtain ⟨items, hwritten, hread⟩ := h.exists_items hexact
  have hstops : Stops isNumberChar [] := fun c hc ↦ by cases hc
  have hwrites : Vocabulary.standard.Writes scope (text ++ []) (items ++ []) := hwritten hstops .nil
  obtain ⟨lexemes, hlexemes, hitems⟩ := hwrites 0
  obtain ⟨others, hothers, hreads⟩ := hread hitems
  cases List.map_eq_nil_iff.mp hothers
  obtain ⟨expr, hyields, hoperand⟩ := hreads closes_nil
  rw [readOn_of_nothing rfl] at hoperand
  rw [List.append_nil] at hlexemes
  have hbound : tree.bound ≤ heightLimit := by
    rw [bound, heightLimit]
    omega
  have hheight : expr.Yields tree.value heightLimit := hyields.mono hbound
  have hawaiting : awaiting .standard [] lexemes = some expr := by
    change resume .standard [] (readOperand .standard none lexemes) = some expr
    rw [hoperand]
    rfl
  have hparse : Vocabulary.standard.parse scope text = .ok expr :=
    Vocabulary.parse_eq_ok_iff_awaiting.mpr ⟨⟨lexemes, hlexemes, hawaiting⟩, hheight.height⟩
  exact ⟨expr, hparse, hheight⟩

end

end Arithmetic

/-! ## Lines -/

namespace Calculator

open Arithmetic

/-- The text of a tree of at most 200 levels, in which no whole number exceeds the limit, has
exactly the value of the tree. -/
theorem evaluate_arithmetic (bindings : Bindings) (line : Nat) {tree : Arithmetic} {text : Line}
    (htext : IsText 0 tree text) (hlevels : tree.levels ≤ 200) (hexact : tree.IsExact) :
    ∃ a, (Calculator.mk .standard bindings line).evaluate text = .ok a ∧
      (Binary.ofFloat? a).map Binary.toRat = some (tree.value : ℚ) := by
  obtain ⟨expr, hparse, hyields⟩ := htext.exists_parse hlevels hexact (bindings.scope line)
  obtain ⟨a, hvalue, hexactly⟩ := hyields.value
  refine ⟨a, ?_, hexactly.map_toRat_ofFloat?⟩
  rw [evaluate, htext.trimEnd_eq]
  change Vocabulary.standard.calculate (bindings.scope line) text = .ok a
  rw [Vocabulary.calculate, hparse]
  change expr.value.mapError _ = .ok a
  rw [hvalue]
  rfl

/-- A product with a bracket in it is subtracted, and then nothing. -/
theorem evaluate_arithmetic_nested :
    ∃ tree : Arithmetic, IsText 0 tree "2 - 3*(4 - 10)*5 -0".toList ∧ tree.levels ≤ 200 ∧
      tree.IsExact ∧ ∃ a, (Calculator.new .standard).evaluate "2 - 3*(4 - 10)*5 -0".toList = .ok a ∧
        (Binary.ofFloat? a).map Binary.toRat = some 92 := by
  have hblank : ∀ c ∈ [' '], isBlank c = true := List.forall_mem_singleton.mpr (by decide)
  have hnone : ∀ c ∈ [], isBlank c = true := List.forall_mem_nil _
  have hbracket : IsText 2 (.operation .difference (.number 4) (.number 10)) _ :=
    .bracket (by decide) (.operation le_rfl (.number 0 4) (.number 1 10) hblank hblank)
  have hfirst : IsText 1 (.operation .product (.number 3) _) _ :=
    .operation le_rfl (.number 1 3) hbracket hnone hnone
  have hproduct : IsText 1 (.operation .product _ (.number 5)) _ :=
    .operation le_rfl hfirst (.number 2 5) hnone hnone
  have hdifference : IsText 0 (.operation .difference (.number 2) _) _ :=
    .operation le_rfl (.number 0 2) hproduct hblank hblank
  have hwhole : IsText 0 (.operation .difference _ (.number 0)) _ :=
    .operation le_rfl hdifference (.number 1 0) hblank hnone
  have htext : IsText 0 _ "2 - 3*(4 - 10)*5 -0".toList := hwhole
  exact ⟨_, htext, by decide, by decide, evaluate_arithmetic .empty 0 htext (by decide) (by decide)⟩

end Calculator

end Reckoner
