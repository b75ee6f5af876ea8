import Reckoner.Expr.OfLine
import Reckoner.Proofs.Fallible
import Reckoner.Proofs.Token.Meaning
import Reckoner.Proofs.Token.Order

/-!
# Expressions as they are built

Each expression on a line is built from tokens of the line and operators of the vocabulary, and each
fault that building it ends in lies on the line. An operator that is put in has no width, but it has
an operand on either side when it is applied, so the span that is reported is never its own.

That the operands are there is seen from the stacks: below the value that was read last, the
finished expressions are the left operands of the waiting operators, one each and in their order.
-/

namespace Reckoner

/-- An expression that can be built on a line of the length given. -/
inductive Expr.Built (voc : Vocabulary) (length : Nat) : Expr → Prop
  | literal {value : Float} {span : Span} (hspan : span.LiesOn length) :
    Built voc length (.literal value span)
  | between {op : BinaryOperator} {left right : Expr} (hop : op ∈ voc.binary)
    (hleft : Built voc length left) (hright : Built voc length right)
    (hordered : left.span.stop ≤ right.span.start) :
    Built voc length (.binary op left right (left.span.hull right.span))
  | before {op : UnaryOperator} {operand : Expr} {start : Nat} (hop : op ∈ voc.unary)
    (hoperand : Built voc length operand) (hordered : start ≤ operand.span.start) :
    Built voc length (.unary op operand ⟨start, operand.span.stop⟩)
  | after {op : UnaryOperator} {operand : Expr} {span : Span} (hop : op ∈ voc.unary)
    (hoperand : Built voc length operand) (hordered : operand.span.stop ≤ span.start)
    (hspan : span.LiesOn length) :
    Built voc length (.unary op operand ⟨operand.span.start, span.stop⟩)

/-- A step ends in a result of the kind given, or in a fault that lies on the line. -/
def Ends {Cause α : Type} (length : Nat) (kind : α → Prop) : Except (Located Cause) α → Prop
  | .ok a => kind a
  | .error fault => fault.span.LiesOn length

/-- The finished expressions are the left operands of the waiting operators. -/
inductive Lefts (voc : Vocabulary) (length : Nat) : List Waiting → List Completed → Prop
  | nil : Lefts voc length [] []
  | between {waiting : List Waiting} {lefts : List Completed} {op : BinaryOperator} {left : Expr}
    {depth layer order : Nat} {span : Span} (hop : op ∈ voc.binary)
    (hleft : left.Built voc length) (h : Lefts voc length waiting lefts) :
    Lefts voc length (⟨.between op, layer, order, span⟩ :: waiting) (⟨left, depth⟩ :: lefts)
  | before {waiting : List Waiting} {lefts : List Completed} {op : UnaryOperator}
    {layer order : Nat} {span : Span} (hop : op ∈ voc.unary) (h : Lefts voc length waiting lefts) :
    Lefts voc length (⟨.beside op, layer, order, span⟩ :: waiting) lefts

/-- The finished expressions are a value and the left operands of the waiting operators. -/
inductive Valued (voc : Vocabulary) (length : Nat) (waiting : List Waiting) :
    List Completed → Prop
  | intro {value : Expr} {depth : Nat} {lefts : List Completed} (hvalue : value.Built voc length)
    (hlefts : Lefts voc length waiting lefts) :
    Valued voc length waiting (⟨value, depth⟩ :: lefts)

/-- An operator that was read last and needs an operand lies on the line. -/
def Last.LiesOn (length : Nat) : Last → Prop
  | .between span | .before span => span.LiesOn length
  | .nothing | .opening | .value => True

/-- What the stacks hold between two tokens of a line. -/
inductive Stacks.Sound (voc : Vocabulary) (length : Nat) : Stacks → Prop
  | holding {waiting : List Waiting} {done : List Completed} {layer : Nat}
    (h : Valued voc length waiting done) : Sound voc length ⟨waiting, done, layer, .value⟩
  | awaiting {waiting : List Waiting} {done : List Completed} {layer : Nat} {last : Last}
    (h : Lefts voc length waiting done) (hlast : last ≠ .value) (hlies : last.LiesOn length) :
    Sound voc length ⟨waiting, done, layer, last⟩

section

variable {Cause α β : Type} {voc : Vocabulary} {length : Nat}

theorem Ends.bind {kind : α → Prop} {kind' : β → Prop} {x : Except (Located Cause) α}
    {f : α → Except (Located Cause) β} (hx : Ends length kind x)
    (hf : ∀ a, kind a → Ends length kind' (f a)) : Ends length kind' (x >>= f) := by
  cases x with
  | error fault => exact hx
  | ok a => exact hf a hx

theorem Ends.mono {kind kind' : α → Prop} {x : Except (Located Cause) α}
    (h : Ends length kind x) (hkind : ∀ a, kind a → kind' a) : Ends length kind' x := by
  cases x with
  | error fault => exact h
  | ok a => exact hkind a h

/-- What is built on a line has characters of it. -/
theorem Expr.Built.liesOn {expr : Expr} (h : expr.Built voc length) :
    expr.span.LiesOn length := by
  induction h with
  | literal hspan => exact hspan
  | between _ _ _ hordered hleft hright =>
    obtain ⟨hleft, -⟩ := hleft
    obtain ⟨hright, hstop⟩ := hright
    constructor <;> simp only [Expr.span_binary, Span.hull] <;> omega
  | before _ _ hordered hoperand =>
    exact ⟨Nat.lt_of_le_of_lt hordered hoperand.start_lt, hoperand.stop_le⟩
  | after _ _ hordered hspan hoperand =>
    have hlt := Nat.lt_of_lt_of_le hoperand.start_lt hordered
    exact ⟨Nat.lt_trans hlt hspan.start_lt, hspan.stop_le⟩

/-! ## Applying what waits -/

variable {limit : Option Nat} {waiting : List Waiting} {first : Waiting}
  {done lefts : List Completed} {expr value : Expr} {below : Nat}

/-- A new expression is a value, or too high and at fault itself. -/
theorem Lefts.addExpr (h : Lefts voc length waiting lefts) (hexpr : expr.Built voc length) :
    Ends length (Valued voc length waiting) (addExpr limit expr below lefts) := by
  rw [Reckoner.addExpr]
  split
  · exact .intro hexpr h
  · exact hexpr.liesOn

/-- The operator that is applied has its operands. -/
theorem Valued.apply (h : Valued voc length (first :: waiting) done) :
    Ends length (Valued voc length waiting) (first.apply limit done) := by
  cases h with
  | intro hvalue hlefts =>
    cases hlefts with
    | between hop hleft hlefts =>
      simp only [Waiting.apply]
      split
      · rename_i hordered
        exact hlefts.addExpr (.between hop hleft hvalue hordered)
      · exact hvalue.liesOn
    | before hop hlefts =>
      simp only [Waiting.apply]
      split
      · rename_i hordered
        exact hlefts.addExpr (.before hop hvalue hordered)
      · exact hvalue.liesOn

theorem Valued.applyDue {isDue : Waiting → Bool} (h : Valued voc length waiting done) :
    Ends length (fun result ↦ Valued voc length result.1 result.2)
      (applyDue limit isDue waiting done) := by
  induction waiting generalizing done with
  | nil => exact h
  | cons first waiting ih =>
    rw [Reckoner.applyDue]
    split
    · exact h.apply.bind fun _ ↦ ih
    · exact h

/-- A bracket that opens changes no more than an order. -/
theorem Lefts.promote (h : Lefts voc length waiting lefts) :
    Lefts voc length (Stacks.promote waiting) lefts := by
  cases h with
  | nil => exact .nil
  | between hop hleft h => exact .between hop hleft h
  | before hop h =>
    simp only [Stacks.promote]
    split <;> exact .before hop h

/-! ## Reading items -/

namespace Stacks

variable {s : Stacks} {span : Span} {item : Item}

/-- Where a value was read last, the stacks hold it. -/
theorem Sound.valued (h : s.Sound voc length) (hlast : s.last = .value) :
    Valued voc length s.waiting s.done := by
  cases h with
  | holding h => exact h
  | awaiting _ hne => exact absurd hlast hne

/-- Where an operand is awaited, the stacks hold left operands only. -/
theorem Sound.lefts_of_ne (h : s.Sound voc length) (hlast : s.last ≠ .value) :
    Lefts voc length s.waiting s.done := by
  cases h with
  | holding => exact absurd rfl hlast
  | awaiting h => exact h

theorem Sound.liesOn_last (h : s.Sound voc length) : s.last.LiesOn length := by
  cases h with
  | holding => trivial
  | awaiting _ _ hlies => exact hlies

theorem ends_yield (h : Valued voc length s.waiting s.done) (yields : Nat → Bool) :
    Ends length (fun s' ↦ Valued voc length s'.waiting s'.done ∧ s'.last = s.last)
      (s.yield limit yields) :=
  h.applyDue.bind fun _ hresult ↦ ⟨hresult, rfl⟩

/-- An operator behind a value takes the value as its left operand, whether or not the operator has
a width. -/
theorem ends_between_of_value {op : BinaryOperator} (hop : op ∈ voc.binary)
    (h : s.Sound voc length) (hlast : s.last = .value) (span : Span) :
    Ends length (fun s' ↦ Lefts voc length s'.waiting s'.done ∧ s'.last = .between span)
      (s.between limit op span) := by
  simp only [between, hlast]
  refine (ends_yield (h.valued hlast) op.yieldsTo).bind fun s' ⟨hs', _⟩ ↦ ?_
  obtain ⟨waiting, done, layer, last⟩ := s'
  cases hs' with
  | intro hvalue hlefts => exact ⟨.between hop hvalue hlefts, rfl⟩

theorem ends_between {op : BinaryOperator} (hop : op ∈ voc.binary) (h : s.Sound voc length)
    (hspan : span.LiesOn length) : Ends length (Sound voc length) (s.between limit op span) := by
  by_cases hlast : s.last = .value
  · refine (ends_between_of_value hop h hlast span).mono fun s' ⟨hs', hlast'⟩ ↦ ?_
    obtain ⟨waiting, done, layer, last⟩ := s'
    subst hlast'
    exact .awaiting hs' Last.noConfusion hspan
  · rw [between]
    split
    · contradiction
    all_goals exact hspan

/-- After an operator was put in, if one is needed, an operand is awaited. -/
theorem ends_join {op : BinaryOperator} (hop : op ∈ voc.binary) (h : s.Sound voc length)
    (index : Nat) :
    Ends length (fun s' ↦ Lefts voc length s'.waiting s'.done) (s.join limit op index) := by
  rw [join]
  split
  · rename_i hlast
    exact (ends_between_of_value hop h hlast (.before index)).mono fun _ hs' ↦ hs'.1
  · rename_i hlast
    exact h.lefts_of_ne hlast

theorem ends_before {connector : BinaryOperator} {op : UnaryOperator}
    (hconnector : connector ∈ voc.binary) (hop : op ∈ voc.unary) (h : s.Sound voc length)
    (hspan : span.LiesOn length) :
    Ends length (Sound voc length) (s.before limit connector op span) :=
  (ends_join hconnector h span.start).bind fun _ hs' ↦
    .awaiting (.before hop hs') Last.noConfusion hspan

theorem ends_after {op : UnaryOperator} (hop : op ∈ voc.unary) (h : s.Sound voc length)
    (hspan : span.LiesOn length) : Ends length (Sound voc length) (s.after limit op span) := by
  rw [after]
  split
  · rename_i hlast
    refine (ends_yield (h.valued hlast) op.yieldsTo).bind fun s' ⟨hs', hlast'⟩ ↦ ?_
    obtain ⟨waiting, done, layer, last⟩ := s'
    cases hs' with
    | intro hvalue hlefts =>
      dsimp only
      split
      · rename_i hordered
        refine (hlefts.addExpr (.after hop hvalue hordered hspan)).bind fun done hdone ↦ ?_
        rw [hlast] at hlast'
        subst hlast'
        exact .holding hdone
      · exact hspan
  · exact hspan

theorem ends_opening {connector : BinaryOperator} (hconnector : connector ∈ voc.binary)
    (h : s.Sound voc length) (index : Nat) :
    Ends length (Sound voc length) (s.opening limit connector index) := by
  refine (ends_join hconnector h index).bind fun s' hs' ↦ ?_
  refine .awaiting ?_ Last.noConfusion trivial
  split
  · exact hs'.promote
  · exact hs'

theorem ends_closing (h : s.Sound voc length) (hspan : span.LiesOn length) :
    Ends length (Sound voc length) (s.closing span) := by
  rw [closing]
  split
  · exact hspan
  · split
    · rename_i hlast
      rw [hlast]
      exact .holding (h.valued hlast)
    all_goals exact hspan

/-- Every item leads from what the stacks can hold to what they can hold. -/
theorem ends_step (hitem : item.IsOf voc) (h : s.Sound voc length) (hspan : span.LiesOn length) :
    Ends length (Sound voc length) (s.step voc limit item span) := by
  match item with
  | .number value =>
    rw [step]
    split
    · exact hspan
    · rename_i hlast
      exact .holding (.intro (.literal hspan) (h.lefts_of_ne hlast))
  | .value value =>
    exact (ends_join voc.multiplication_mem h span.start).bind fun s' hs' ↦
      .holding (.intro (.literal hspan) hs')
  | .operator (.between op) => exact ends_between hitem h hspan
  | .operator (.beside op) =>
    rw [step]
    cases op.side with
    | before => exact ends_before (voc.connectorFor_mem op) hitem h hspan
    | after => exact ends_after hitem h hspan
  | .opening => exact ends_opening voc.multiplication_mem h span.start
  | .closing => exact ends_closing h hspan

/-! ## Reading lines -/

/-- A closing bracket that is found early is a token. -/
theorem exists_of_bracketFault? {layer : Nat} {token : Token} {rest : List Token}
    {fault : Located ReadingFault} (h : bracketFault? layer token rest = some fault) :
    ∃ closing ∈ rest, fault.span = closing.span := by
  rw [bracketFault?.eq_def] at h
  split at h
  · obtain ⟨-, h⟩ := Option.ite_none_right_eq_some.mp h
    cases h
    exact ⟨_, List.mem_cons_self, rfl⟩
  · cases h

/-- Tokens that lie on the line, with operators of the vocabulary, are read. -/
theorem ends_read {scope : Scope} (tokens : List Token)
    (hlies : ∀ token ∈ tokens, token.span.LiesOn length)
    (hitem : ∀ token ∈ tokens, ∀ item, token.item voc scope = .ok item → item.IsOf voc) :
    ∀ {s : Stacks}, s.Sound voc length →
      Ends length (Sound voc length) (s.read voc scope limit tokens) := by
  induction tokens with
  | nil => exact id
  | cons token rest ih =>
    intro s h
    have hspan := hlies token List.mem_cons_self
    have hlies' : ∀ token ∈ rest, token.span.LiesOn length :=
      fun token htoken ↦ hlies token (List.mem_cons_of_mem _ htoken)
    have hitem' := fun token htoken ↦ hitem token (List.mem_cons_of_mem _ htoken)
    rw [read]
    split
    · rename_i fault hfault
      obtain ⟨closing, hclosing, hfault⟩ := exists_of_bracketFault? hfault
      rw [Ends, hfault]
      exact hlies' closing hclosing
    · cases hmeans : token.item voc scope with
      | error fault =>
        rw [error_bind, Ends, Token.span_eq_of_item hmeans]
        exact hspan
      | ok item =>
        exact (ends_step (hitem token List.mem_cons_self item hmeans) h hspan).bind
          fun _ ↦ ih hlies' hitem'

/-- What is finished at the end of a line is built on it. -/
theorem ends_finish (h : s.Sound voc length) (hpos : 0 < length) :
    Ends length (Expr.Built voc length) (s.finish limit length) := by
  have hend : Span.LiesOn length ⟨length - 1, length⟩ :=
    ⟨Nat.sub_lt hpos Nat.zero_lt_one, Nat.le_refl _⟩
  have hlies := h.liesOn_last
  rw [finish]
  split
  · rename_i hlast
    rwa [hlast] at hlies
  · rename_i hlast
    rwa [hlast] at hlies
  · exact hend
  · exact hend
  · rename_i hlast
    refine (h.valued hlast).applyDue.bind fun result hresult ↦ ?_
    obtain ⟨waiting, done⟩ := result
    cases hresult with
    | @intro value depth lefts hvalue hlefts =>
      cases lefts with
      | nil => exact hvalue
      | cons => exact hend

end Stacks

namespace Vocabulary

variable {scope : Scope} {line : Line}

/-- The expression on a line that is not empty is built on it, and a fault of reading it lies on
it. -/
theorem ends_parseWithin (hline : line ≠ []) :
    Ends line.length (Expr.Built voc line.length) (voc.parseWithin limit scope line) := by
  have hstart : Stacks.start.Sound voc line.length := .awaiting .nil Last.noConfusion trivial
  have hread : Ends line.length (Stacks.Sound voc line.length)
      (Stacks.start.read voc scope limit (Token.ofLine voc line)) :=
    Stacks.ends_read (Token.ofLine voc line) (fun _ ↦ Token.liesOn_of_mem_ofLine)
      (fun _ htoken _ ↦ Token.isOf_of_item htoken) hstart
  exact hread.bind fun s hs ↦ Stacks.ends_finish hs (List.length_pos_iff.mpr hline)

/-- Nothing is on the empty line. -/
theorem parseWithin_nil (voc : Vocabulary) (limit : Option Nat) (scope : Scope) :
    voc.parseWithin limit scope [] = misplaced ⟨0, 0⟩ := rfl

/-- The expression on a line is built on it. -/
theorem built_of_parse (h : voc.parse scope line = .ok expr) : expr.Built voc line.length := by
  by_cases hline : line = []
  · subst hline
    rw [parse, parseWithin_nil] at h
    cases h
  · have hends : Ends line.length (Expr.Built voc line.length) (voc.parse scope line) :=
      ends_parseWithin hline
    rwa [h] at hends

end Vocabulary

end

end Reckoner
