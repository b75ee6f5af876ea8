import Reckoner.Proofs.Expr.Conventional
import Reckoner.Proofs.Token.Meaning

/-!
# Subtraction

A line has the value, or the cause of a fault, that it has in the conventional reading, in which a
minus directly after a value subtracts: products and shares keep the sign of their first operand.
The one exception is a share in what is subtracted to which an operator is applied that binds more
tightly than the negation, as in `5 - 200%!`: the factorial is that of `-200%` here and that of
`200%` in the conventional reading.
-/

namespace Reckoner

open Descent

namespace Conventional

/-! ## Reading lexemes -/

/-- What the one reading comes to has the outcome of what the other comes to. -/
def Accords (result result' : Option Expr) : Prop :=
  ∀ expr, result = some expr → ∃ expr', result' = some expr' ∧ expr.HasSense .same expr'

theorem Accords.of_eq_none {result result' : Option Expr} (h : result = none) :
    Accords result result' := by
  rintro expr hexpr
  rw [h] at hexpr
  cases hexpr

/-- From places that correspond, the lexemes lead both readings to the same outcome. In front of a
value of the opposite sense no operator is read that raises it. -/
structure Leads (items : List Lexeme) : Prop where
  awaiting : ∀ {levels frames frames'}, Matches .same levels frames frames' →
    Lexeme.unraised levels (Lexeme.subtracting false items) = true →
    Accords (awaiting .standard frames items)
      (awaiting .standard frames' (Lexeme.subtracting false items))
  holding : ∀ {sense levels frames frames' expr expr'}, Matches sense levels frames frames' →
    expr.HasSense sense expr' →
    (sense = .opposite → (Lexeme.subtracting true items).head?.any (·.item.raises) = false) →
    Lexeme.unraised levels (Lexeme.subtracting true items) = true →
    Accords (holding .standard frames expr items)
      (holding .standard frames' expr' (Lexeme.subtracting true items))

section

variable {item : Item} {span : Span} {items : List Lexeme} {sense : Sense} {levels : List Bool}
  {frames frames' : List Frame} {held held' : List Frame × Expr} {op : UnaryOperator}
  {binary : BinaryOperator}

/-- A promotion is the same in both readings. -/
theorem orderBefore_subtracting (op : UnaryOperator) (items : List Lexeme) :
    orderBefore op (Lexeme.subtracting false items) = orderBefore op items := by
  match items with
  | [] => rfl
  | ⟨.operator (.beside _), _⟩ :: _ => rfl
  | ⟨.number _, _⟩ :: _ | ⟨.value _, _⟩ :: _ | ⟨.opening, _⟩ :: _ | ⟨.closing, _⟩ :: _ => rfl
  | ⟨.operator (.between _), _⟩ :: _ => rfl

theorem unraised_cons (h : Lexeme.unraised levels (⟨item, span⟩ :: items) = true) :
    Lexeme.unraised (item.terms levels) items = true := by
  rw [Lexeme.unraised, Bool.and_eq_true] at h
  exact h.2

/-- Behind a share in a term that is subtracted no operator raises it. -/
theorem any_raises_of_unraised (h : Lexeme.unraised levels (⟨item, span⟩ :: items) = true)
    (hlevel : levels.headD false = true) (hshare : item.isShare = true) :
    items.head?.any (·.item.raises) = false := by
  rw [Lexeme.unraised, hlevel, hshare, Bool.and_eq_true] at h
  simpa using h.1

/-- Where an operand begins, both readings read the same lexeme. -/
theorem Leads.awaiting_cons (h : Leads items) (hmatches : Matches .same levels frames frames')
    (hunraised : Lexeme.unraised levels (Lexeme.subtracting false (⟨item, span⟩ :: items)) = true) :
    Accords (Descent.awaiting .standard frames (⟨item, span⟩ :: items))
      (Descent.awaiting .standard frames' (Lexeme.subtracting false (⟨item, span⟩ :: items))) := by
  rw [Lexeme.subtracting, Item.subtracting_false] at hunraised ⊢
  have hrest := unraised_cons hunraised
  match item with
  | .number value =>
    rw [awaiting_eq_of_readPrimary_eq_some (readPrimary_number value),
      awaiting_eq_of_readPrimary_eq_some (readPrimary_number value)]
    exact h.holding hmatches (.literal value span span) Sense.noConfusion hrest
  | .value value =>
    rw [awaiting_eq_of_readPrimary_eq_some (readPrimary_value value),
      awaiting_eq_of_readPrimary_eq_some (readPrimary_value value)]
    exact h.holding hmatches (.literal value span span) Sense.noConfusion hrest
  | .opening =>
    rw [awaiting_opening, awaiting_opening]
    exact h.awaiting (.bracket false hmatches) hrest
  | .closing => exact .of_eq_none (awaiting_eq_none_of_readPrimary readPrimary_closing)
  | .operator (.between op) =>
    exact .of_eq_none (awaiting_eq_none_of_readPrimary (readPrimary_between op))
  | .operator (.beside op) =>
    cases hside : op.side with
    | before =>
      rw [Item.completes_of_before hside] at hrest ⊢
      rw [awaiting_before hside, awaiting_before hside, orderBefore_subtracting]
      exact h.awaiting (.before op _ span.start hmatches) hrest
    | after => exact .of_eq_none (awaiting_eq_none_of_readPrimary (readPrimary_after hside))

/-- An operator of the order of a product, written or put in, that both readings read behind a
value. -/
theorem Corresponds.holding_factor (h : Corresponds sense levels held held')
    {items' start start' : List Lexeme} (hop : binary.IsFactor)
    (harrival : arrival .standard items = .between binary start)
    (harrival' : arrival .standard items' = .between binary start')
    (hstart : ∀ {frames frames'}, Matches .same levels frames frames' →
      Accords (awaiting .standard frames start) (awaiting .standard frames' start')) :
    Accords (holding .standard held.1 held.2 items) (holding .standard held'.1 held'.2 items') := by
  have hyields {order : Nat} (horder : 1 ≤ order) : binary.yieldsTo order = true := by
    rw [BinaryOperator.yieldsTo, hop.associativity_eq, hop.order_eq]
    exact decide_eq_true horder
  obtain ⟨sense', hsettled⟩ :=
    h.frames.settle_of_loose h.value (hyields (Nat.le_refl 1)) (hyields (Nat.le_succ 1))
  rw [holding_eq_awaiting harrival, holding_eq_awaiting harrival']
  exact hstart (hsettled.factor hop)

/-- A minus behind a value: one reading adds what is negated and the other subtracts it. -/
theorem Leads.holding_negation (h : Leads items)
    (hcorresponds : Corresponds sense levels held held')
    (hunraised : Lexeme.unraised (true :: levels.tail) (Lexeme.subtracting false items) = true) :
    Accords
      (Descent.holding .standard held.1 held.2
        (⟨.operator (.beside Standard.negation), span⟩ :: items))
      (Descent.holding .standard held'.1 held'.2
        (⟨.operator (.between subtraction), span⟩ :: Lexeme.subtracting false items)) := by
  have hsettled : Corresponds .same (true :: levels.tail)
      (Descent.settle Standard.addition.yieldsTo held.1 held.2)
      (Descent.settle subtraction.yieldsTo held'.1 held'.2) :=
    hcorresponds.frames.settle_of_all hcorresponds.value
      (fun order ↦ decide_eq_true (Nat.zero_le order)) true
  have harrival : arrival .standard (⟨.operator (.beside Standard.negation), span⟩ :: items) =
      .between Standard.addition (⟨.operator (.beside Standard.negation), span⟩ :: items) :=
    arrival_before rfl span items
  have harrival' : arrival .standard
      (⟨.operator (.between subtraction), span⟩ :: Lexeme.subtracting false items) =
      .between subtraction (Lexeme.subtracting false items) := rfl
  rw [holding_eq_awaiting harrival, awaiting_before rfl, Standard.orderBefore_negation,
    holding_eq_awaiting harrival']
  exact h.awaiting (.negation span.start (.term hsettled.value hsettled.frames)) hunraised

/-- An operator between two operands behind a value. -/
theorem Leads.holding_between (h : Leads items)
    (hop : binary ∈ Vocabulary.standard.binary) (hcorresponds : Corresponds sense levels held held')
    (hraises : sense = .opposite → (Item.operator (.between binary)).raises = false)
    (hunraised : Lexeme.unraised (Item.terms levels (.operator (.between binary)))
      (Lexeme.subtracting false items) = true) :
    Accords
      (Descent.holding .standard held.1 held.2 (⟨.operator (.between binary), span⟩ :: items))
      (Descent.holding .standard held'.1 held'.2
        (⟨.operator (.between binary), span⟩ :: Lexeme.subtracting false items)) := by
  rcases Standard.binary_cases hop with rfl | hfactor | rfl
  · have hsettled : Corresponds .same (false :: levels.tail)
        (Descent.settle Standard.addition.yieldsTo held.1 held.2)
        (Descent.settle Standard.addition.yieldsTo held'.1 held'.2) :=
      hcorresponds.frames.settle_of_all hcorresponds.value
        (fun order ↦ decide_eq_true (Nat.zero_le order)) false
    rw [holding_eq_awaiting rfl, holding_eq_awaiting rfl]
    exact h.awaiting (.between _ hsettled.value hsettled.frames) hunraised
  · have hlevels : Item.terms levels (.operator (.between binary)) = levels := by
      rw [Item.terms, hfactor.order_eq]
      rfl
    rw [hlevels] at hunraised
    exact hcorresponds.holding_factor hfactor rfl rfl fun hmatches ↦ h.awaiting hmatches hunraised
  · cases sense with
    | opposite => cases hraises rfl
    | same =>
      have hsettled : Corresponds .same levels
          (Descent.settle Standard.power.yieldsTo held.1 held.2)
          (Descent.settle Standard.power.yieldsTo held'.1 held'.2) :=
        hcorresponds.frames.settle_of_tight hcorresponds.value rfl rfl rfl
      rw [holding_eq_awaiting rfl, holding_eq_awaiting rfl]
      exact h.awaiting (.between _ hsettled.value hsettled.frames) hunraised

/-- An operator after a value. -/
theorem Leads.holding_after (h : Leads items) (hop : op ∈ Vocabulary.standard.unary)
    (hside : op.side = .after) (hcorresponds : Corresponds sense levels held held')
    (hraises : sense = .opposite → (Item.operator (.beside op)).raises = false)
    (hunraised : Lexeme.unraised levels
      (⟨.operator (.beside op), span⟩ :: Lexeme.subtracting true items) = true) :
    Accords
      (Descent.holding .standard held.1 held.2 (⟨.operator (.beside op), span⟩ :: items))
      (Descent.holding .standard held'.1 held'.2
        (⟨.operator (.beside op), span⟩ :: Lexeme.subtracting true items)) := by
  have hrest : Lexeme.unraised levels (Lexeme.subtracting true items) = true :=
    unraised_cons hunraised
  rw [holding_eq_holding (arrival_after hside _ _), holding_eq_holding (arrival_after hside _ _)]
  rcases Standard.isShare_or_eq_factorial hop hside with hshare | rfl
  · have hyields {order : Nat} (horder : 1 ≤ order) : op.yieldsTo order = true := by
      rw [UnaryOperator.yieldsTo, hshare.order_eq]
      exact decide_eq_true horder
    have hitem : (Item.operator (.beside op)).isShare = true := by
      rw [Item.isShare, hside]
      exact hyields (Nat.le_succ 1)
    obtain ⟨sense', hsettled⟩ := hcorresponds.frames.settle_of_loose hcorresponds.value
      (hyields (Nat.le_refl 1)) (hyields (Nat.le_succ 1))
    cases sense' with
    | same => exact h.holding hsettled.frames (hsettled.value.unary op) Sense.noConfusion hrest
    | opposite =>
      have hlevel := hsettled.frames.headD_of_opposite
      exact h.holding hsettled.frames (hsettled.value.share hshare)
        (fun _ ↦ any_raises_of_unraised hunraised hlevel hitem) hrest
  · cases sense with
    | opposite => cases hraises rfl
    | same =>
      have hsettled : Corresponds .same levels
          (Descent.settle Standard.factorial.yieldsTo held.1 held.2)
          (Descent.settle Standard.factorial.yieldsTo held'.1 held'.2) :=
        hcorresponds.frames.settle_of_tight hcorresponds.value rfl rfl rfl
      exact h.holding hsettled.frames (hsettled.value.unary _) Sense.noConfusion hrest

/-- Behind a value, both readings read the same lexeme, or the one a negation where the other reads a
difference. -/
theorem Leads.holding_cons (h : Leads items) (hitem : item.IsOf .standard)
    (hcorresponds : Corresponds sense levels held held')
    (hraises : sense = .opposite → (item.subtracting true).raises = false)
    (hunraised : Lexeme.unraised levels (Lexeme.subtracting true (⟨item, span⟩ :: items)) = true) :
    Accords (Descent.holding .standard held.1 held.2 (⟨item, span⟩ :: items))
      (Descent.holding .standard held'.1 held'.2
        (Lexeme.subtracting true (⟨item, span⟩ :: items))) := by
  have hjoined (hsame : item.subtracting true = item)
      (harrival : ∀ rest, arrival .standard (⟨item, span⟩ :: rest) =
        .between Standard.multiplication (⟨item, span⟩ :: rest)) :
      Accords (Descent.holding .standard held.1 held.2 (⟨item, span⟩ :: items))
        (Descent.holding .standard held'.1 held'.2
          (Lexeme.subtracting true (⟨item, span⟩ :: items))) := by
    have heq : Lexeme.subtracting true (⟨item, span⟩ :: items) =
        Lexeme.subtracting false (⟨item, span⟩ :: items) := by
      rw [Lexeme.subtracting, Lexeme.subtracting, hsame, Item.subtracting_false]
    have harrival' : arrival .standard (Lexeme.subtracting true (⟨item, span⟩ :: items)) =
        .between Standard.multiplication (Lexeme.subtracting true (⟨item, span⟩ :: items)) := by
      rw [Lexeme.subtracting, hsame, harrival]
    rw [heq] at hunraised harrival' ⊢
    exact hcorresponds.holding_factor Standard.isFactor_multiplication (harrival items) harrival'
      fun hmatches ↦ h.awaiting_cons hmatches hunraised
  match item with
  | .number value => exact .of_eq_none (holding_number value)
  | .value value => exact hjoined rfl fun _ ↦ rfl
  | .opening => exact hjoined rfl fun _ ↦ rfl
  | .closing =>
    have heq : Lexeme.subtracting true (⟨.closing, span⟩ :: items) =
        ⟨.closing, span⟩ :: Lexeme.subtracting true items := rfl
    rw [heq] at hunraised ⊢
    rw [holding_closing, holding_closing]
    cases hleave : leaveBracket? held.1 held.2 with
    | none => exact .of_eq_none rfl
    | some left =>
      obtain ⟨left', hleave', hleft⟩ := hcorresponds.frames.leaveBracket? hcorresponds.value hleave
      rw [hleave']
      exact h.holding hleft.frames hleft.value Sense.noConfusion (unraised_cons hunraised)
  | .operator (.between op) =>
    exact h.holding_between hitem hcorresponds hraises (unraised_cons hunraised)
  | .operator (.beside op) =>
    rw [Lexeme.subtracting] at hunraised
    rcases Standard.eq_negation_or hitem with rfl | hnegation
    · exact h.holding_negation hcorresponds (unraised_cons hunraised)
    · have hsame := Item.subtracting_of_not_negation hnegation true
      cases hside : op.side with
      | before =>
        refine hjoined hsame fun rest ↦ ?_
        rw [arrival_before hside, Vocabulary.connectorFor, hnegation]
        rfl
      | after =>
        rw [Lexeme.subtracting, hsame, Item.completes_of_after hside]
        rw [hsame, Item.completes_of_after hside] at hunraised
        rw [hsame] at hraises
        exact h.holding_after hitem hside hcorresponds hraises hunraised

/-- Lexemes of the standard vocabulary lead both readings to the same outcome. -/
theorem Leads.of_isOf (items : List Lexeme) (hitems : ∀ lexeme ∈ items, lexeme.item.IsOf .standard) :
    Leads items := by
  induction items with
  | nil =>
    refine ⟨fun _ _ ↦ .of_eq_none (awaiting_eq_none_of_readPrimary readPrimary_nil), ?_⟩
    intro sense levels frames frames' expr expr' hmatches hexpr _ _ result hresult
    rw [holding_nil] at hresult
    cases hresult
    exact ⟨_, holding_nil _ _, hmatches.closeAll hexpr⟩
  | cons lexeme items ih =>
    have h : Leads items := ih fun lexeme hlexeme ↦ hitems lexeme (List.mem_cons_of_mem _ hlexeme)
    have hitem : lexeme.item.IsOf .standard := hitems lexeme List.mem_cons_self
    refine ⟨fun hmatches hunraised ↦ h.awaiting_cons hmatches hunraised, ?_⟩
    intro sense levels frames frames' expr expr' hmatches hexpr hraises hunraised
    have hcorresponds : Corresponds sense levels (frames, expr) (frames', expr') := ⟨hmatches, hexpr⟩
    exact h.holding_cons hitem hcorresponds (fun hsense ↦ hraises hsense) hunraised

/-- What the tokens of a line mean are operators of the vocabulary, if operators. -/
theorem isOf_of_mapM_lexeme {voc : Vocabulary} {scope : Scope} (tokens : List Token)
    (hitem : ∀ token ∈ tokens, ∀ item, token.item voc scope = .ok item → item.IsOf voc) :
    ∀ {items : List Lexeme}, tokens.mapM (Token.lexeme voc scope) = .ok items →
      ∀ lexeme ∈ items, lexeme.item.IsOf voc := by
  induction tokens with
  | nil =>
    intro items hitems lexeme hlexeme
    cases hitems
    cases hlexeme
  | cons token tokens ih =>
    intro items hitems lexeme hlexeme
    obtain ⟨item, items', hmeans, hitems', rfl⟩ := Token.mapM_lexeme_cons_eq_ok_iff.mp hitems
    rcases List.mem_cons.mp hlexeme with rfl | hlexeme
    · exact hitem token List.mem_cons_self item hmeans
    · exact ih (fun token htoken ↦ hitem token (List.mem_cons_of_mem _ htoken)) hitems' lexeme
        hlexeme

end

end Conventional

namespace Vocabulary

variable {scope : Scope} {line : Line} {expr : Expr}

/-- The value or the cause of the fault of a line is the outcome of its expression. -/
theorem mapError_calculate_of_parse {voc : Vocabulary} (h : voc.parse scope line = .ok expr) :
    (voc.calculate scope line).mapError Located.cause = expr.outcome.mapError .computing := by
  rw [calculate, h, Expr.outcome]
  change (expr.value.mapError _).mapError _ = _
  cases expr.value <;> rfl

/-- Where no share that is subtracted is raised, a line has the value, or the cause of a fault, that
it has in the conventional reading. -/
theorem calculate_eq_conventional_of_isUnraised (hparse : standard.parse scope line = .ok expr)
    (hunraised : Conventional.isUnraised scope line = true) :
    ∃ expr', Conventional.read? scope line = some expr' ∧
      (standard.calculate scope line).mapError Located.cause =
        expr'.outcome.mapError .computing := by
  obtain ⟨⟨items, hitems, hexpr⟩, -⟩ := parse_eq_ok_iff_awaiting.mp hparse
  have hconventional : Conventional.lexemes? scope line =
      some (Lexeme.subtracting false items) := by
    rw [Conventional.lexemes?, hitems]
    rfl
  have hisOf : ∀ lexeme ∈ items, lexeme.item.IsOf standard :=
    Conventional.isOf_of_mapM_lexeme _ (fun _ htoken _ ↦ Token.isOf_of_item htoken) hitems
  rw [Conventional.isUnraised, hconventional] at hunraised
  obtain ⟨expr', hexpr', hsense⟩ :=
    (Conventional.Leads.of_isOf items hisOf).awaiting (.nil false) hunraised expr hexpr
  refine ⟨expr', (Conventional.read?_eq_awaiting hconventional).trans hexpr', ?_⟩
  rw [mapError_calculate_of_parse hparse, show expr.outcome = expr'.outcome from hsense]

/-- The product, the remainder and the factorial of what is negated in one reading and subtracted in
the other, with a share that is raised in a bracket only. -/
theorem calculate_eq_conventional_nested :
    ∃ expr expr', standard.parse .bare "10 - 2*3! mod 5% - (200%)!".toList = .ok expr ∧
      Conventional.isUnraised .bare "10 - 2*3! mod 5% - (200%)!".toList = true ∧
      Conventional.read? .bare "10 - 2*3! mod 5% - (200%)!".toList = some expr' ∧
      (standard.calculate .bare "10 - 2*3! mod 5% - (200%)!".toList).mapError Located.cause =
        expr'.outcome.mapError .computing := by
  have haccepted :
      (standard.parse .bare "10 - 2*3! mod 5% - (200%)!".toList).isOk = true := by decide +kernel
  have hunraised :
      Conventional.isUnraised .bare "10 - 2*3! mod 5% - (200%)!".toList = true := by decide +kernel
  cases hparse : standard.parse .bare "10 - 2*3! mod 5% - (200%)!".toList with
  | error fault =>
    rw [hparse] at haccepted
    cases haccepted
  | ok expr =>
    obtain ⟨expr', hread, houtcome⟩ := calculate_eq_conventional_of_isUnraised hparse hunraised
    exact ⟨expr, expr', rfl, hunraised, hread, houtcome⟩

/-- A factorial of a share that is subtracted tells the two readings apart. -/
theorem calculate_ne_conventional_raised :
    ∃ expr expr', standard.parse .bare "5-200%!".toList = .ok expr ∧
      Conventional.read? .bare "5-200%!".toList = some expr' ∧
      standard.calculate .bare "5-200%!".toList = .ok 6 ∧ expr'.outcome = .ok 3 ∧
      (standard.calculate .bare "5-200%!".toList).mapError Located.cause ≠
        expr'.outcome.mapError .computing := by
  have hlexemes : Conventional.lexemes? .bare "5-200%!".toList =
      some [⟨.number (readDecimal ['5']), ⟨0, 1⟩⟩, ⟨.operator (.between subtraction), ⟨1, 2⟩⟩,
        ⟨.number (readDecimal ['2', '0', '0']), ⟨2, 5⟩⟩,
        ⟨.operator (.beside Standard.percent), ⟨5, 6⟩⟩,
        ⟨.operator (.beside Standard.factorial), ⟨6, 7⟩⟩] := by rfl
  let subtracted : Expr := .unary Standard.factorial
    (.unary Standard.percent (.literal (readDecimal ['2', '0', '0']) ⟨2, 5⟩) ⟨2, 6⟩) ⟨2, 7⟩
  let expr' : Expr :=
    .binary subtraction (.literal (readDecimal ['5']) ⟨0, 1⟩) subtracted ⟨0, 7⟩
  have hread : Conventional.read? .bare "5-200%!".toList = some expr' := by
    rw [Conventional.read?_eq_awaiting hlexemes,
      awaiting_eq_of_readPrimary_eq_some (readPrimary_number _), holding_eq_awaiting rfl,
      awaiting_eq_of_readPrimary_eq_some (readPrimary_number _),
      holding_eq_holding (arrival_after rfl _ _), holding_eq_holding (arrival_after rfl _ _),
      holding_nil]
    rfl
  have hvalue : standard.calculate .bare "5-200%!".toList = .ok 6 := by decide +kernel
  have houtcome : expr'.outcome = .ok 3 := by decide +kernel
  have hdifferent : (6 : Float) ≠ 3 := by decide +kernel
  obtain ⟨expr, hparse⟩ : ∃ expr, standard.parse .bare "5-200%!".toList = .ok expr := ⟨_, by rfl⟩
  refine ⟨expr, expr', hparse, hread, hvalue, houtcome, ?_⟩
  rw [hvalue, houtcome]
  exact fun h ↦ hdifferent (Except.ok.inj h)

end Vocabulary

end Reckoner
