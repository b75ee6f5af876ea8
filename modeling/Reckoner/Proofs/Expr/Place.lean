import Reckoner.Proofs.Expr.Phase

/-!
# Where a reader stands

Between two lexemes a reader stands at a place: in front of an operand that some frames wait for, or
behind a value. A lexeme leads from one place to the next, or to none where it cannot stand, and
what the line comes to stays the same. An operator that is not written is put in first, so that the
lexeme itself is read in front of an operand.

What holds of every step so holds of what a line comes to, by induction on the lexemes alone.
-/

namespace Reckoner

/-- The operator that is put in front of an item directly behind a value, if one is. -/
def Item.connector? (voc : Vocabulary) : Item → Option BinaryOperator
  | .value _ | .opening => some voc.multiplication
  | .operator (.beside op) =>
    match op.side with
    | .before => some (voc.connectorFor op)
    | .after => none
  | .number _ | .operator (.between _) | .closing => none

theorem Item.connector?_of_before {voc : Vocabulary} {op : UnaryOperator}
    (hside : op.side = .before) :
    (Item.operator (.beside op)).connector? voc = some (voc.connectorFor op) := by
  simp only [connector?, hside]

theorem Item.connector?_of_after {voc : Vocabulary} {op : UnaryOperator}
    (hside : op.side = .after) : (Item.operator (.beside op)).connector? voc = none := by
  simp only [connector?, hside]

/-- What is put in joins by multiplication or by addition. -/
theorem Item.eq_of_connector? {voc : Vocabulary} {item : Item} {op : BinaryOperator}
    (h : item.connector? voc = some op) : op = voc.multiplication ∨ op = voc.addition := by
  match item with
  | .value _ | .opening => exact .inl (Option.some.inj h).symm
  | .operator (.beside unary) =>
    cases hside : unary.side with
    | before =>
      rw [connector?_of_before hside] at h
      rw [← Option.some.inj h, Vocabulary.connectorFor]
      split
      · exact .inr rfl
      · exact .inl rfl
    | after =>
      rw [connector?_of_after hside] at h
      cases h
  | .number _ | .operator (.between _) | .closing => cases h

/-- The number of brackets that are open behind an item, unless it closes one where none is. -/
def Item.depth? (depth : Nat) : Item → Option Nat
  | .opening => some (depth + 1)
  | .closing => if depth = 0 then none else some (depth - 1)
  | _ => some depth

/-- The number of brackets that are open behind some lexemes, unless one is closed where none is
open. -/
def Lexeme.depth? (depth : Nat) : List Lexeme → Option Nat
  | [] => some depth
  | lexeme :: rest => (lexeme.item.depth? depth).bind fun depth ↦ Lexeme.depth? depth rest

namespace Descent

/-- How an operator binds in front of lexemes depends on the first of them alone. -/
theorem orderBefore_cons (op : UnaryOperator) (lexeme : Lexeme) (rest rest' : List Lexeme) :
    orderBefore op (lexeme :: rest) = orderBefore op (lexeme :: rest') := by
  obtain ⟨item, span⟩ := lexeme
  cases item <;> rfl

/-- Where a reader stands. -/
inductive Place where
  /-- In front of an operand that some frames wait for. -/
  | awaiting (frames : List Frame)
  /-- Behind a value. -/
  | holding (frames : List Frame) (expr : Expr)

namespace Place

variable {voc : Vocabulary} {lexeme : Lexeme} {rest : List Lexeme} {p p' : Place}

/-- What the line comes to from a place on. -/
def result (voc : Vocabulary) : Place → List Lexeme → Option Expr
  | awaiting frames, items => Descent.awaiting voc frames items
  | holding frames expr, items => Descent.holding voc frames expr items

/-- The place behind an operator between two operands, the value in front of it being its left
one. -/
def join (op : BinaryOperator) (frames : List Frame) (expr : Expr) : Place :=
  .awaiting (.between op (settle op.yieldsTo frames expr).2 :: (settle op.yieldsTo frames expr).1)

/-- The place behind an operator after its operand, which ends at a position. -/
def attach (op : UnaryOperator) (stop : Nat) (frames : List Frame) (expr : Expr) : Place :=
  .holding (settle op.yieldsTo frames expr).1
    (.unary op (settle op.yieldsTo frames expr).2
      ⟨(settle op.yieldsTo frames expr).2.span.start, stop⟩)

/-- The place directly in front of an item, behind the operator that is put in there if one is. -/
def connect (voc : Vocabulary) (item : Item) : Place → Place
  | awaiting frames => .awaiting frames
  | holding frames expr =>
    match item.connector? voc with
    | some op => join op frames expr
    | none => .holding frames expr

/-- The place behind a lexeme, the lexemes after it being given. -/
def read? (lexeme : Lexeme) (rest : List Lexeme) : Place → Option Place
  | awaiting frames =>
    match lexeme.item with
    | .number value | .value value => some (.holding frames (.literal value lexeme.span))
    | .opening => some (.awaiting (.bracket :: frames))
    | .operator (.beside op) =>
      match op.side with
      | .before => some (.awaiting (.before op (orderBefore op rest) lexeme.span.start :: frames))
      | .after => none
    | .operator (.between _) | .closing => none
  | holding frames expr =>
    match lexeme.item with
    | .operator (.between op) => some (join op frames expr)
    | .operator (.beside op) =>
      match op.side with
      | .before => none
      | .after => some (attach op lexeme.span.stop frames expr)
    | .closing => (leaveBracket? frames expr).map fun left ↦ .holding left.1 left.2
    | .number _ | .value _ | .opening => none

/-- The place behind a lexeme and behind the operator that is put in front of it if one is. -/
def step? (voc : Vocabulary) (lexeme : Lexeme) (rest : List Lexeme) (p : Place) : Option Place :=
  (p.connect voc lexeme.item).read? lexeme rest

/-! ## The result does not change -/

/-- An operator that is put in leaves the result as it was. -/
theorem result_connect (p : Place) : (p.connect voc lexeme.item).result voc (lexeme :: rest) =
    p.result voc (lexeme :: rest) := by
  obtain ⟨item, span⟩ := lexeme
  cases p with
  | awaiting frames => rfl
  | holding frames expr =>
    match item with
    | .value value | .opening => exact (holding_eq_awaiting rfl).symm
    | .operator (.beside op) =>
      cases hside : op.side with
      | before =>
        rw [connect, Item.connector?_of_before hside]
        exact (holding_eq_awaiting (arrival_before hside span rest)).symm
      | after => rw [connect, Item.connector?_of_after hside]
    | .number _ | .operator (.between _) | .closing => rfl

/-- In front of an operand the result is that behind the next lexeme. -/
theorem result_awaiting_cons (frames : List Frame) :
    (awaiting frames).result voc (lexeme :: rest) =
      ((awaiting frames).read? lexeme rest).bind fun p ↦ p.result voc rest := by
  obtain ⟨item, span⟩ := lexeme
  match item with
  | .number value => exact awaiting_eq_of_readPrimary_eq_some (readPrimary_number value)
  | .value value => exact awaiting_eq_of_readPrimary_eq_some (readPrimary_value value)
  | .opening => exact awaiting_opening
  | .closing => exact awaiting_eq_none_of_readPrimary readPrimary_closing
  | .operator (.between op) => exact awaiting_eq_none_of_readPrimary (readPrimary_between op)
  | .operator (.beside op) =>
    cases hside : op.side with
    | before =>
      simp only [read?, hside, Option.bind_some]
      exact awaiting_before hside
    | after =>
      simp only [read?, hside, Option.bind_none]
      exact awaiting_eq_none_of_readPrimary (readPrimary_after hside)

/-- Behind a value the result is that behind the next lexeme, where no operator is put in. -/
theorem result_holding_cons (frames : List Frame) (expr : Expr)
    (h : lexeme.item.connector? voc = none) :
    (holding frames expr).result voc (lexeme :: rest) =
      ((holding frames expr).read? lexeme rest).bind fun p ↦ p.result voc rest := by
  obtain ⟨item, span⟩ := lexeme
  match item with
  | .number value => exact holding_number value
  | .value _ | .opening => cases h
  | .closing =>
    simp only [result, read?, holding_closing, Option.bind_map]
    rfl
  | .operator (.between op) => exact holding_eq_awaiting rfl
  | .operator (.beside op) =>
    cases hside : op.side with
    | before => cases (Item.connector?_of_before hside).symm.trans h
    | after =>
      simp only [read?, hside, Option.bind_some]
      exact holding_eq_holding (arrival_after hside span rest)

/-- Each lexeme leaves the result as it was. -/
theorem result_cons (p : Place) : p.result voc (lexeme :: rest) =
    (p.step? voc lexeme rest).bind fun p ↦ p.result voc rest := by
  rw [← result_connect p, step?]
  cases p with
  | awaiting frames => exact result_awaiting_cons frames
  | holding frames expr =>
    cases hconnector : lexeme.item.connector? voc with
    | some op =>
      rw [connect, hconnector]
      exact result_awaiting_cons _
    | none =>
      rw [connect, hconnector]
      exact result_holding_cons frames expr hconnector

/-- A line that comes to an expression comes to it behind its first lexeme. -/
theorem result_cons_eq_some_iff {expr : Expr} : p.result voc (lexeme :: rest) = some expr ↔
    ∃ p', p.step? voc lexeme rest = some p' ∧ p'.result voc rest = some expr := by
  rw [result_cons, Option.bind_eq_some_iff]

/-- No operand ends where none has begun. -/
@[simp] theorem result_awaiting_nil (frames : List Frame) :
    (awaiting frames).result voc [] = none :=
  awaiting_eq_none_of_readPrimary readPrimary_nil

/-- At the end of a line all frames close. -/
@[simp] theorem result_holding_nil (frames : List Frame) (expr : Expr) :
    (holding frames expr).result voc [] = some (closeAll frames expr) := holding_nil frames expr

/-! ## What a step does -/

/-- Whether the reader stands behind a value. -/
def complete : Place → Bool
  | awaiting _ => false
  | holding _ _ => true

/-- The number of open brackets. -/
def depth : Place → Nat
  | awaiting frames | holding frames _ => brackets frames

theorem depth_connect (voc : Vocabulary) (item : Item) (p : Place) :
    (p.connect voc item).depth = p.depth := by
  cases p with
  | awaiting frames => rfl
  | holding frames expr =>
    rw [connect]
    cases item.connector? voc with
    | none => rfl
    | some op => exact brackets_settle op.yieldsTo frames expr

/-- A reader stands behind a value if and only if the lexeme that it has read completes one. -/
theorem complete_of_read? (h : p.read? lexeme rest = some p') :
    p'.complete = lexeme.item.completes := by
  obtain ⟨item, span⟩ := lexeme
  cases p with
  | awaiting frames =>
    match item with
    | .number _ | .value _ | .opening =>
      cases h
      rfl
    | .operator (.beside op) =>
      cases hside : op.side with
      | before =>
        simp only [read?, hside] at h
        cases h
        exact (Item.completes_of_before hside).symm
      | after =>
        simp only [read?, hside] at h
        cases h
    | .operator (.between _) | .closing => cases h
  | holding frames expr =>
    match item with
    | .operator (.between op) =>
      cases h
      rfl
    | .operator (.beside op) =>
      cases hside : op.side with
      | before =>
        simp only [read?, hside] at h
        cases h
      | after =>
        simp only [read?, hside] at h
        cases h
        exact (Item.completes_of_after hside).symm
    | .closing =>
      obtain ⟨left, -, rfl⟩ := Option.map_eq_some_iff.mp h
      rfl
    | .number _ | .value _ | .opening => cases h

/-- A lexeme opens and closes the brackets that it is. -/
theorem depth_of_read? (h : p.read? lexeme rest = some p') :
    lexeme.item.depth? p.depth = some p'.depth := by
  obtain ⟨item, span⟩ := lexeme
  cases p with
  | awaiting frames =>
    cases item with
    | number | value | opening =>
      cases h
      rfl
    | operator op =>
      cases op with
      | beside op =>
        simp only [read?] at h
        split at h <;> cases h
        rfl
      | between op => cases h
    | closing => cases h
  | holding frames expr =>
    cases item with
    | operator op =>
      cases op with
      | between op =>
        cases h
        exact congrArg some (brackets_settle op.yieldsTo frames expr).symm
      | beside op =>
        simp only [read?] at h
        split at h <;> cases h
        exact congrArg some (brackets_settle op.yieldsTo frames expr).symm
    | closing =>
      obtain ⟨left, hleave, rfl⟩ := Option.map_eq_some_iff.mp h
      rcases leaveBracket?_eq_none_or frames expr with ⟨hnone, -⟩ | ⟨left', hleft, hbrackets⟩
      · cases hnone.symm.trans hleave
      · cases hleft.symm.trans hleave
        simp [Item.depth?, depth, hbrackets]
    | number | value | opening => cases h

theorem complete_of_step? (h : p.step? voc lexeme rest = some p') :
    p'.complete = lexeme.item.completes := complete_of_read? h

theorem depth_of_step? (h : p.step? voc lexeme rest = some p') :
    lexeme.item.depth? p.depth = some p'.depth := by
  rw [← p.depth_connect voc lexeme.item]
  exact depth_of_read? h

/-- An operator before its operand is read in front of an operand. -/
theorem exists_connect_before (voc : Vocabulary) {op : UnaryOperator} (hside : op.side = .before)
    (p : Place) :
    ∃ frames, p.connect voc (.operator (.beside op)) = .awaiting frames := by
  cases p with
  | awaiting frames => exact ⟨frames, rfl⟩
  | holding frames expr =>
    rw [connect, Item.connector?_of_before hside]
    exact ⟨_, rfl⟩

/-! ## Runs -/

/-- The place behind some lexemes, the lexemes after them being given. -/
def run? (voc : Vocabulary) (rest : List Lexeme) : List Lexeme → Place → Option Place
  | [], p => some p
  | lexeme :: items, p => (p.step? voc lexeme (items ++ rest)).bind (run? voc rest items)

/-- Some lexemes leave the result as it was. -/
theorem result_append (items rest : List Lexeme) (p : Place) :
    p.result voc (items ++ rest) = (p.run? voc rest items).bind fun p ↦ p.result voc rest := by
  induction items generalizing p with
  | nil => rfl
  | cons lexeme items ih =>
    rw [List.cons_append, result_cons, run?, Option.bind_assoc]
    exact congrArg _ (funext ih)

/-- At the end of a line the result is that of the last place. -/
theorem result_eq_bind_run? (items : List Lexeme) (p : Place) :
    p.result voc items = (p.run? voc [] items).bind fun p ↦ p.result voc [] := by
  rw [← result_append, List.append_nil]

theorem depth_of_run? {items : List Lexeme} (h : p.run? voc rest items = some p') :
    Lexeme.depth? p.depth items = some p'.depth := by
  induction items generalizing p with
  | nil =>
    cases h
    rfl
  | cons lexeme items ih =>
    obtain ⟨p₁, hstep, hrun⟩ := Option.bind_eq_some_iff.mp h
    rw [Lexeme.depth?, depth_of_step? hstep]
    exact ih hrun

/-- How a lexeme is read depends on what follows only by how an operator binds in front of it. -/
theorem read?_congr {rest' : List Lexeme} (h : ∀ op, orderBefore op rest = orderBefore op rest')
    (lexeme : Lexeme) (p : Place) : p.read? lexeme rest = p.read? lexeme rest' := by
  cases p with
  | awaiting frames => simp only [read?, h]
  | holding frames expr => rfl

/-- How some lexemes are read depends on what follows only by how an operator binds in front of
it. -/
theorem run?_congr {rest' : List Lexeme} (h : ∀ op, orderBefore op rest = orderBefore op rest')
    (items : List Lexeme) (p : Place) : p.run? voc rest items = p.run? voc rest' items := by
  induction items generalizing p with
  | nil => rfl
  | cons lexeme items ih =>
    have hahead (op : UnaryOperator) :
        orderBefore op (items ++ rest) = orderBefore op (items ++ rest') := by
      cases items with
      | nil => exact h op
      | cons next items => exact orderBefore_cons op next _ _
    rw [run?, run?, step?, step?, read?_congr hahead]
    exact congrArg _ (funext ih)

/-- On a line that comes to an expression no bracket is closed where none is open. -/
theorem isSome_depth?_of_result {expr : Expr} {items : List Lexeme}
    (h : p.result voc items = some expr) : (Lexeme.depth? p.depth items).isSome := by
  induction items generalizing p with
  | nil => rfl
  | cons lexeme items ih =>
    obtain ⟨p', hstep, hresult⟩ := result_cons_eq_some_iff.mp h
    rw [Lexeme.depth?, depth_of_step? hstep]
    exact ih hresult

end Place

end Descent

end Reckoner
