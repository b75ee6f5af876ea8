import Reckoner.Proofs.Expr.FaultStart
import Reckoner.Proofs.Expr.OnePass
import Reckoner.Proofs.Expr.Portions
import Reckoner.Vocabulary.Standard

/-!
# No operand is ever missing

Between two tokens of a line the stacks are regular: there is a finished expression for each waiting
operator that has a left operand, one more behind a value, and all of it stands in the order of the
line. Only behind a closing bracket operators of an inner layer wait. Each token that is read leaves
the stacks regular, and while operators are applied, one after the other, each of them finds its
operands. So of the faults of building an expression only those can be met that the line itself has,
and the height of what is built.
-/

namespace Reckoner

/-! ## Regular stacks -/

namespace Stacks

/-- The stacks hold what was read in front of a position. -/
inductive Regular (stop : Nat) : Stacks → Prop
  | holding {waiting : List Waiting} {lefts : List Completed} {value : Expr} {layer start : Nat}
    (h : Laid waiting lefts start) (hvalue : value.LiesIn start stop) :
    Regular stop ⟨waiting, value.measured :: lefts, layer, .value⟩
  | awaiting {waiting : List Waiting} {done : List Completed} {layer start : Nat} {last : Last}
    (h : Laid waiting done start) (hle : start ≤ stop)
    (hlayer : ∀ first ∈ waiting, first.layer ≤ layer) (hlast : last ≠ .value) :
    Regular stop ⟨waiting, done, layer, last⟩

variable {voc : Vocabulary} {scope : Scope} {limit : Option Nat} {s s' : Stacks} {stop stop' : Nat}
  {span : Span} {item : Item} {tokens rest : List Token}

theorem regular_start : start.Regular 0 := .awaiting .nil (Nat.le_refl _) (fun _ ↦ nofun) nofun

theorem Regular.mono (h : s.Regular stop) (hle : stop ≤ stop') : s.Regular stop' := by
  cases h with
  | holding h hvalue =>
    exact .holding h (hvalue.mono hle)
  | awaiting h hstart hlayer hlast => exact .awaiting h (Nat.le_trans hstart hle) hlayer hlast

/-- Behind a value the stacks hold it, above left operands. -/
theorem Regular.exists_value (h : s.Regular stop) (hlast : s.last = .value) :
    ∃ (value : Expr) (lefts : List Completed) (start : Nat), s.done = value.measured :: lefts ∧
      Laid s.waiting lefts start ∧ value.LiesIn start stop := by
  cases h with
  | holding h hvalue => exact ⟨_, _, _, rfl, h, hvalue⟩
  | awaiting _ _ _ hne => exact absurd hlast hne

/-- Where an operand is awaited the stacks hold left operands only. -/
theorem Regular.exists_laid (h : s.Regular stop) (hlast : s.last ≠ .value) :
    ∃ start ≤ stop, Laid s.waiting s.done start ∧ ∀ first ∈ s.waiting, first.layer ≤ s.layer := by
  cases h with
  | holding => exact absurd rfl hlast
  | awaiting h hle hlayer _ => exact ⟨_, hle, h, hlayer⟩

/-! ## Reading items -/

/-- An operator that arrives leaves a value and no operator of an inner layer. -/
theorem Regular.yield {yields : Nat → Bool} (h : s.Regular stop) (hlast : s.last = .value)
    (hyield : s.yield limit yields = .ok s') :
    ∃ (value : Expr) (lefts : List Completed) (start : Nat), s'.done = value.measured :: lefts ∧
      Laid s'.waiting lefts start ∧ value.LiesIn start stop ∧
        ∀ first ∈ s'.waiting, first.layer ≤ s'.layer := by
  obtain ⟨value, lefts, start, hdone, hlaid, hvalue⟩ := h.exists_value hlast
  obtain ⟨result, happly, hs'⟩ := bind_eq_ok_iff.mp hyield
  cases hs'
  rw [hdone] at happly
  obtain ⟨happlies, hnext⟩ := applies_of_applyDue happly
  obtain ⟨value', lefts', start', hdone', hlaid', hvalue'⟩ :=
    hlaid.exists_of_applies hvalue happlies
  refine ⟨value', lefts', start', hdone', hlaid', hvalue', hlaid'.layer_le fun next hmem ↦ ?_⟩
  have hdue := hnext next hmem
  rw [Waiting.isDue, Bool.or_eq_false_iff, decide_eq_false_iff_not] at hdue
  exact Nat.le_of_not_lt hdue.1

/-- An operator between two operands takes the value as its left one. -/
theorem Regular.between {op : BinaryOperator} (h : s.Regular stop) (hstop : stop ≤ span.start)
    (hspan : span.start ≤ span.stop) (hbetween : s.between limit op span = .ok s') :
    s'.Regular span.stop := by
  have hlast := (of_between_eq_ok hbetween).1
  rw [Stacks.between, hlast] at hbetween
  obtain ⟨s₁, hyield, hs'⟩ := bind_eq_ok_iff.mp hbetween
  cases hs'
  obtain ⟨value, lefts, start, hdone, hlaid, hvalue, hlayer⟩ := h.yield hlast hyield
  rw [hdone]
  have hentry : Entry start (.between op value) ⟨.between op, s₁.layer, op.order, span⟩
      [value.measured] := .between (hvalue.mono hstop) hspan
  exact .awaiting (hlaid.push hlayer hentry) (Nat.le_refl _)
    (List.forall_mem_cons.mpr ⟨Nat.le_refl _, hlayer⟩) Last.noConfusion

/-- After an operator was put in, if one is needed, an operand is awaited. -/
theorem Regular.join {op : BinaryOperator} {index : Nat} (h : s.Regular stop)
    (hindex : stop ≤ index) (hjoin : s.join limit op index = .ok s') :
    s'.Regular index ∧ s'.last ≠ .value := by
  rw [Stacks.join] at hjoin
  split at hjoin
  · have hlast := (of_between_eq_ok hjoin).2.2
    exact ⟨h.between hindex (Nat.le_refl _) hjoin, hlast ▸ Last.noConfusion⟩
  · rename_i hlast
    cases hjoin
    exact ⟨h.mono hindex, hlast⟩

theorem Regular.before {connector : BinaryOperator} {op : UnaryOperator} (h : s.Regular stop)
    (hstop : stop ≤ span.start) (hspan : span.start ≤ span.stop)
    (hbefore : s.before limit connector op span = .ok s') : s'.Regular span.stop := by
  obtain ⟨s₁, hjoin, hs'⟩ := bind_eq_ok_iff.mp hbefore
  cases hs'
  obtain ⟨hregular, hlast⟩ := h.join hstop hjoin
  obtain ⟨start, hle, hlaid, hlayer⟩ := hregular.exists_laid hlast
  have hentry : Entry start (.before op op.order span.start)
      ⟨.beside op, s₁.layer, op.order, span⟩ [] := .before hle hspan
  exact .awaiting (hlaid.push hlayer hentry) (Nat.le_refl _)
    (List.forall_mem_cons.mpr ⟨Nat.le_refl _, hlayer⟩) Last.noConfusion

/-- An operator after its operand takes the value. -/
theorem Regular.after {op : UnaryOperator} (h : s.Regular stop) (hstop : stop ≤ span.start)
    (hspan : span.start ≤ span.stop) (hafter : s.after limit op span = .ok s') :
    s'.Regular span.stop := by
  have hlast := (of_after_eq_ok hafter).1
  obtain ⟨s₁, hyield, -⟩ := bind_eq_ok_iff.mp ((if_pos hlast).symm.trans hafter)
  obtain ⟨operand, lefts, start, hdone, hlaid, hoperand, -⟩ := h.yield hlast hyield
  have hordered : operand.span.stop ≤ span.start := Nat.le_trans hoperand.le_stop hstop
  have hwidth : operand.span.start ≤ span.stop :=
    Nat.le_trans hoperand.le (Nat.le_trans hordered hspan)
  rw [Stacks.after_eq hlast hyield hdone hordered,
    addExpr_eq (operand.isMeasured_measured.unary op _)] at hafter
  obtain ⟨done, hadd, hs'⟩ := bind_eq_ok_iff.mp hafter
  cases hs'
  rw [(of_yield_eq_ok hyield).2, hlast]
  split at hadd
  · cases hadd
    exact .holding hlaid ⟨hoperand.start_le, hwidth, Nat.le_refl _⟩
  · cases hadd

theorem Regular.opening {connector : BinaryOperator} (h : s.Regular stop)
    (hstop : stop ≤ span.start) (hspan : span.start ≤ span.stop)
    (hopening : s.opening limit connector span.start = .ok s') : s'.Regular span.stop := by
  obtain ⟨s₁, hjoin, hs'⟩ := bind_eq_ok_iff.mp hopening
  cases hs'
  obtain ⟨hregular, hlast⟩ := h.join hstop hjoin
  obtain ⟨start, hle, hlaid, hlayer⟩ := hregular.exists_laid hlast
  have houter : ∀ first ∈ s₁.waiting, first.layer ≤ s₁.layer + 1 :=
    fun first hfirst ↦ Nat.le_succ_of_le (hlayer first hfirst)
  have hstart := Nat.le_trans hle hspan
  split
  · obtain ⟨hpromoted, hlayer'⟩ := hlaid.promote houter
    exact .awaiting hpromoted hstart hlayer' Last.noConfusion
  · exact .awaiting hlaid hstart houter Last.noConfusion

/-- A bracket that closes leaves the operators in it waiting. -/
theorem Regular.closing (h : s.Regular stop) (hstop : stop ≤ span.stop)
    (hclosing : s.closing span = .ok s') : s'.Regular span.stop := by
  rw [Stacks.closing] at hclosing
  split at hclosing
  · cases hclosing
  · split at hclosing
    · rename_i hlast
      cases hclosing
      obtain ⟨value, lefts, start, hdone, hlaid, hvalue⟩ := h.exists_value hlast
      rw [hdone, hlast]
      exact .holding hlaid (hvalue.mono hstop)
    all_goals cases hclosing

theorem Regular.pushValue (h : s.Regular stop) (hlast : s.last ≠ .value)
    (hstop : stop ≤ span.start) (hspan : span.start ≤ span.stop) (value : Float) :
    (s.pushValue value span).Regular span.stop := by
  obtain ⟨start, hle, hlaid, -⟩ := h.exists_laid hlast
  exact .holding hlaid ⟨Nat.le_trans hle hstop, hspan, Nat.le_refl _⟩

/-- Each item that is read leaves the stacks regular. -/
theorem Regular.step (h : s.Regular stop) (hstop : stop ≤ span.start)
    (hspan : span.start ≤ span.stop) (hstep : s.step voc limit item span = .ok s') :
    s'.Regular span.stop := by
  match item with
  | .number value =>
    rw [Stacks.step] at hstep
    split at hstep
    · cases hstep
    · rename_i hlast
      cases hstep
      exact h.pushValue hlast hstop hspan value
  | .value value =>
    obtain ⟨s₁, hjoin, hs'⟩ := bind_eq_ok_iff.mp hstep
    cases hs'
    obtain ⟨hregular, hlast⟩ := h.join hstop hjoin
    exact hregular.pushValue hlast (Nat.le_refl _) hspan value
  | .operator (.between op) => exact h.between hstop hspan hstep
  | .operator (.beside op) =>
    rw [Stacks.step] at hstep
    cases hside : op.side with
    | before =>
      rw [hside] at hstep
      exact h.before hstop hspan hstep
    | after =>
      rw [hside] at hstep
      exact h.after hstop hspan hstep
  | .opening => exact h.opening hstop hspan hstep
  | .closing => exact h.closing (Nat.le_trans hstop hspan) hstep

/-! ## Reading tokens -/

/-- A token that is read means an item, and the stacks take a step for it. -/
theorem exists_of_read_cons_eq_ok {token : Token}
    (h : s.read voc scope limit (token :: rest) = .ok s') :
    ∃ item s₁, token.item voc scope = .ok item ∧ s.step voc limit item token.span = .ok s₁ ∧
      s₁.read voc scope limit rest = .ok s' := by
  rw [read] at h
  split at h
  · cases h
  · obtain ⟨item, hitem, h⟩ := bind_eq_ok_iff.mp h
    obtain ⟨s₁, hstep, h⟩ := bind_eq_ok_iff.mp h
    exact ⟨item, s₁, hitem, hstep, h⟩

/-- Tokens that are read leave the stacks regular. -/
theorem Regular.read {bound : Nat} (h : s.Regular stop) (hordered : Token.Ordered stop tokens)
    (hread : s.read voc scope limit tokens = .ok s') (hstop : stop ≤ bound)
    (hbound : ∀ token ∈ tokens, token.span.stop ≤ bound) : s'.Regular bound := by
  induction hordered generalizing s with
  | nil =>
    cases hread
    exact h.mono hstop
  | @cons stop token rest hstart hspan _ ih =>
    obtain ⟨item, s₁, -, hstep, hread⟩ := exists_of_read_cons_eq_ok hread
    obtain ⟨htoken, hrest⟩ := List.forall_mem_cons.mp hbound
    exact ih (h.step hstart hspan hstep) hread htoken hrest

/-- An operator before its operand that was read last is on top of those that wait. -/
theorem of_step_eq_before {place : Span} (h : s.step voc limit item span = .ok s')
    (hlast : s'.last = .before place) :
    place = span ∧ ∃ op others, item = .operator (.beside op) ∧ op.side = .before ∧
      s'.waiting = ⟨.beside op, s'.layer, op.order, span⟩ :: others := by
  match item with
  | .number value =>
    rw [step] at h
    split at h <;> cases h
    cases hlast
  | .value value =>
    obtain ⟨s₁, -, hs'⟩ := bind_eq_ok_iff.mp h
    cases hs'
    cases hlast
  | .operator (.between op) => cases (of_between_eq_ok h).2.2.symm.trans hlast
  | .operator (.beside op) =>
    rw [step] at h
    cases hside : op.side with
    | before =>
      rw [hside] at h
      obtain ⟨s₁, -, hs'⟩ := bind_eq_ok_iff.mp h
      cases hs'
      cases hlast
      exact ⟨rfl, op, s₁.waiting, rfl, hside, rfl⟩
    | after =>
      rw [hside] at h
      cases (of_after_eq_ok h).2.2.symm.trans hlast
  | .opening =>
    obtain ⟨s₁, -, hs'⟩ := bind_eq_ok_iff.mp h
    cases hs'
    cases hlast
  | .closing =>
    rw [step, closing] at h
    split at h
    · cases h
    · split at h
      · rename_i hvalue
        cases h
        cases hvalue.symm.trans hlast
      all_goals cases h

/-- The operator that waits on top is the last token, if that is one before its operand. -/
theorem of_read_eq_before {place : Span} (hread : s.read voc scope limit tokens = .ok s')
    (htokens : tokens ≠ []) (hlast : s'.last = .before place) :
    ∃ token op others, tokens.getLast? = some token ∧ token.span = place ∧
      token.item voc scope = .ok (.operator (.beside op)) ∧ op.side = .before ∧
      s'.waiting = ⟨.beside op, s'.layer, op.order, place⟩ :: others := by
  induction tokens generalizing s with
  | nil => exact absurd rfl htokens
  | cons token rest ih =>
    obtain ⟨item, s₁, hitem, hstep, hread⟩ := exists_of_read_cons_eq_ok hread
    cases rest with
    | nil =>
      cases hread
      obtain ⟨rfl, op, others, rfl, hside, hwaiting⟩ := of_step_eq_before hstep hlast
      exact ⟨token, op, others, rfl, rfl, hitem, hside, hwaiting⟩
    | cons next rest =>
      rw [List.getLast?_cons_cons]
      exact ih hread (List.cons_ne_nil _ _)

/-! ## What the stacks hold -/

/-- What the stacks hold when some tokens were read, which stand in front of a position. -/
structure Consistent (voc : Vocabulary) (scope : Scope) (tokens : List Token) (stop : Nat)
    (s : Stacks) : Prop where
  /-- Each operator that waits between two operands has its left one, and a value is one more. -/
  length_done :
    s.done.length = s.waiting.countP Waiting.isBetween + if s.last = .value then 1 else 0
  /-- No operator waits above one of a layer inside its own. -/
  pairwise_layer : s.waiting.reverse.Pairwise (·.layer ≤ ·.layer)
  layer_le : s.last ≠ .value → ∀ first ∈ s.waiting, first.layer ≤ s.layer
  /-- An operator before its operand that was read last waits on top, in the present layer. -/
  before : ∀ span, s.last = .before span → ∃ token op others,
    tokens.getLast? = some token ∧ token.span = span ∧
      token.item voc scope = .ok (.operator (.beside op)) ∧ op.side = .before ∧
      s.waiting = ⟨.beside op, s.layer, op.order, span⟩ :: others
  /-- The two stacks are merged from portions of the line, the last of which is a value if that was
  read last. -/
  portions : ∃ portions, Portion.Merges s.waiting s.done portions ∧ Portion.Follow stop portions ∧
    (s.last = .value → ∃ value, portions.getLast? = some (.finished value))

theorem Regular.length_done (h : s.Regular stop) :
    s.done.length = s.waiting.countP Waiting.isBetween + if s.last = .value then 1 else 0 := by
  cases h with
  | holding h _ => exact congrArg (· + 1) h.length_eq_countP
  | awaiting h _ _ hlast => rw [if_neg hlast, h.length_eq_countP, Nat.add_zero]

theorem Regular.pairwise_layer (h : s.Regular stop) :
    s.waiting.reverse.Pairwise (·.layer ≤ ·.layer) := by
  rw [List.pairwise_reverse]
  cases h with
  | holding h _ => exact h.pairwise_layer
  | awaiting h _ _ _ => exact h.pairwise_layer

theorem Regular.exists_portions (h : s.Regular stop) :
    ∃ portions, Portion.Merges s.waiting s.done portions ∧ Portion.Follow stop portions ∧
      (s.last = .value → ∃ value, portions.getLast? = some (.finished value)) := by
  cases h with
  | @holding _ _ value _ _ h hvalue =>
    obtain ⟨portions, hmerges, hfollow⟩ := h.exists_portions
    have hfinished : Portion.Follow value.span.stop (portions ++ [.finished value]) :=
      hfollow.concat (.finished value) hvalue.start_le hvalue.le fun _ heq ↦ nomatch heq
    exact ⟨_, hmerges.finish value, hfinished.mono hvalue.le_stop,
      fun _ ↦ ⟨value, List.getLast?_concat⟩⟩
  | awaiting h hle _ hlast =>
    obtain ⟨portions, hmerges, hfollow⟩ := h.exists_portions
    exact ⟨portions, hmerges, hfollow.mono hle, fun hvalue ↦ absurd hvalue hlast⟩

/-- Stacks that were read from tokens are regular in front of a position behind these. -/
theorem regular_of_read {bound : Nat} (hordered : Token.Ordered 0 tokens)
    (hbound : ∀ token ∈ tokens, token.span.stop ≤ bound)
    (hread : start.read voc scope limit tokens = .ok s) : s.Regular bound :=
  regular_start.read hordered hread (Nat.zero_le _) hbound

theorem consistent_of_read (hordered : Token.Ordered 0 tokens)
    (hbound : ∀ token ∈ tokens, token.span.stop ≤ stop)
    (hread : start.read voc scope limit tokens = .ok s) : s.Consistent voc scope tokens stop := by
  have hregular := regular_of_read hordered hbound hread
  refine ⟨hregular.length_done, hregular.pairwise_layer, fun hlast ↦ ?_, fun span hlast ↦ ?_,
    hregular.exists_portions⟩
  · obtain ⟨-, -, -, hlayer⟩ := hregular.exists_laid hlast
    exact hlayer
  · refine of_read_eq_before hread ?_ hlast
    rintro rfl
    cases hread
    cases hlast

/-! ## What can fail -/

/-- What is to be applied finds its operands, all of them in front of the tokens given. -/
structure Provides (limit : Option Nat) (rest : List Token) (s : Stacks) : Prop where
  /-- Whatever has been applied, the operator that is next has its operands on its sides. -/
  takes : ∀ first others done, Applies limit s.waiting s.done (first :: others) done →
    ∃ expr below, first.Takes done expr below
  /-- It is only applied in vain if the expression that it makes is too high. -/
  tooHigh : ∀ isDue fault, applyDue limit isDue s.waiting s.done = .error fault →
    ∃ first others done expr below, Applies limit s.waiting s.done (first :: others) done ∧
      first.Takes done expr below ∧ limit.all (expr.height ≤ ·) = false ∧
      fault = ⟨.invalidOperation, expr.span⟩
  /-- An operator after its operand finds it in front of itself. -/
  operand : ∀ yields s', s.yield limit yields = .ok s' → ∃ operand below,
    s'.done = Expr.measured operand :: below ∧
      ∀ token ∈ rest.head?, operand.span.stop ≤ token.span.start
  /-- When all is applied there is one expression. -/
  single : ∀ result, applyDue limit (fun _ ↦ true) s.waiting s.done = .ok result →
    ∃ expr, result = ([], [Expr.measured expr])

/-- Behind a value, applying the operator that is next is making an expression of its operands. -/
theorem Regular.exists_takes {first : Waiting} {others : List Waiting} {done : List Completed}
    (h : s.Regular stop) (hlast : s.last = .value)
    (happlies : Applies limit s.waiting s.done (first :: others) done) :
    ∃ expr below, first.Takes done expr below := by
  obtain ⟨value, lefts, start, hdone, hlaid, hvalue⟩ := h.exists_value hlast
  rw [hdone] at happlies
  obtain ⟨value', lefts', start', rfl, hlaid', hvalue'⟩ := hlaid.exists_of_applies hvalue happlies
  obtain ⟨expr, below, -, htakes, -⟩ := hlaid'.exists_takes hvalue'
  exact ⟨expr, below, htakes⟩

theorem Regular.provides (h : s.Regular stop) (hlast : s.last = .value)
    (hrest : ∀ token ∈ rest.head?, stop ≤ token.span.start) : s.Provides limit rest where
  takes _ _ _ happlies := h.exists_takes hlast happlies
  tooHigh isDue fault hfails := by
    obtain ⟨first, others, done, happlies, hfails⟩ := exists_of_applyDue_eq_error hfails
    obtain ⟨expr, below, htakes⟩ := h.exists_takes hlast happlies
    rw [htakes.apply_eq] at hfails
    split at hfails
    · cases hfails
    · rename_i hheight
      exact ⟨first, others, done, expr, below, happlies, htakes, Bool.eq_false_iff.mpr hheight,
        (Except.error.inj hfails).symm⟩
  operand yields s' hyield := by
    obtain ⟨operand, below, _, hdone, -, hoperand, -⟩ := h.yield hlast hyield
    exact ⟨operand, below, hdone, fun token htoken ↦
      Nat.le_trans hoperand.le_stop (hrest token htoken)⟩
  single result happly := by
    obtain ⟨value, lefts, start, hdone, hlaid, hvalue⟩ := h.exists_value hlast
    have hwaiting := waiting_of_applyDue_all happly
    obtain ⟨waiting, done⟩ := result
    rw [hdone] at happly
    obtain ⟨expr, below, start', rfl, hlaid', -⟩ :=
      hlaid.exists_of_applies hvalue (applies_of_applyDue happly).1
    cases hwaiting
    cases hlaid'
    exact ⟨expr, rfl⟩

theorem provides_of_read (hordered : Token.Ordered 0 (tokens ++ rest))
    (hbound : ∀ token ∈ tokens, token.span.stop ≤ stop)
    (hread : start.read voc scope limit tokens = .ok s) (hlast : s.last = .value) :
    s.Provides limit rest := by
  cases rest with
  | nil => exact (regular_of_read hordered.of_append hbound hread).provides hlast fun _ ↦ nofun
  | cons next rest =>
    have hfront : ∀ token ∈ tokens, token.span.stop ≤ next.span.start := fun token htoken ↦
      (List.pairwise_append.mp hordered.pairwise.1).2.2 token htoken next List.mem_cons_self
    refine (regular_of_read hordered.of_append hfront hread).provides hlast ?_
    rintro token ⟨⟩
    exact Nat.le_refl _

end Stacks

/-! ## Reading a line -/

/-- Whatever has been read of a line, the stacks are consistent and provide for what is applied. -/
structure Vocabulary.KeepsOperands (voc : Vocabulary) (scope : Scope) (limit : Option Nat)
    (line : Line) : Prop where
  /-- The line is read character by character. -/
  parse_eq : voc.parseWithin limit scope line =
    Progress.start.run voc scope limit 0 line >>= Progress.finish voc scope limit line.length
  /-- The stacks are consistent behind each character. -/
  behind_character : ∀ front progress, front <+: line →
    Progress.start.run voc scope limit 0 front = .ok progress →
      progress.held.Consistent voc scope (Token.scanned voc 0 .none front).1 front.length
  /-- They are so behind each token, where an operator or the end of the line may follow a value. -/
  behind_token : ∀ tokens rest s, Token.ofLine voc line = tokens ++ rest →
    Stacks.start.read voc scope limit tokens = .ok s →
      s.Consistent voc scope tokens line.length ∧ (s.last = .value → s.Provides limit rest)

/-- On no line does an operator come to be applied without its operands, be the line an expression or
not. -/
theorem Vocabulary.keepsOperands (voc : Vocabulary) (scope : Scope) (limit : Option Nat)
    (line : Line) : voc.KeepsOperands scope limit line where
  parse_eq := voc.parseWithin_eq_run scope limit line
  behind_character front progress _ hrun := by
    have hordered : Token.Ordered 0 (Token.scanned voc 0 .none front).1 := by
      have hfront := Token.ordered_ofLine voc front
      rw [Token.ofLine, Token.scan_eq_scanned] at hfront
      exact hfront.of_append
    exact Stacks.consistent_of_read hordered
      (fun token htoken ↦ (Token.liesOn_of_mem_scanned htoken).stop_le)
      (Progress.of_run_eq_ok hrun).1
  behind_token tokens rest s htokens hread := by
    have hordered := Token.ordered_ofLine voc line
    have hbound : ∀ token ∈ tokens, token.span.stop ≤ line.length := fun token htoken ↦
      (Token.liesOn_of_mem_ofLine (htokens ▸ List.mem_append_left rest htoken)).stop_le
    rw [htokens] at hordered
    exact ⟨Stacks.consistent_of_read hordered.of_append hbound hread,
      Stacks.provides_of_read hordered hbound hread⟩

-- The bracket has closed and nothing has been applied: the operator in it waits on top.
example : (Progress.start.run .standard .bare none 0 "2*(3+1)".toList).toOption.map (fun progress ↦
      (progress.held.waiting.map (fun first ↦ (first.layer, first.span)),
        progress.held.done.map (fun tree ↦ (tree.depth, tree.expr.span)), progress.held.layer)) =
    some ([(1, .single 4), (0, .single 1)], [(1, .single 5), (1, .single 3), (1, .single 0)],
      0) := by
  rfl

end Reckoner
