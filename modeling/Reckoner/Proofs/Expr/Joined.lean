import Reckoner.Proofs.Expr.Place

/-!
# Operators that are not written

Lexemes with an operator put in wherever a value, a bracket or an operator before its operand
follows a complete value. The operator has no width and stands directly in front of what it joins.
Reading the lexemes with these operators written out leads to the same places, and so to the same
expression.
-/

namespace Reckoner

namespace Lexeme

/-- The operator that is put in front of a lexeme, if it stands directly behind a complete value. -/
def joint (voc : Vocabulary) (complete : Bool) (lexeme : Lexeme) : List Lexeme :=
  if complete then
    (lexeme.item.connector? voc).toList.map fun op ↦
      ⟨.operator (.between op), .before lexeme.span.start⟩
  else []

/-- Lexemes with the operators that are put between them, behind a complete value or in front of an
operand. -/
def joined (voc : Vocabulary) (complete : Bool) : List Lexeme → List Lexeme
  | [] => []
  | lexeme :: rest => joint voc complete lexeme ++ lexeme :: joined voc lexeme.item.completes rest

variable {voc : Vocabulary} {lexeme : Lexeme}

@[simp] theorem joint_false (lexeme : Lexeme) : joint voc false lexeme = [] := rfl

theorem joint_of_none (h : lexeme.item.connector? voc = none) (complete : Bool) :
    joint voc complete lexeme = [] := by
  cases complete <;> simp [joint, h]

theorem joint_of_some {op : BinaryOperator} (h : lexeme.item.connector? voc = some op) :
    joint voc true lexeme = [⟨.operator (.between op), .before lexeme.span.start⟩] := by
  simp [joint, h]

theorem length_joint_le (voc : Vocabulary) (complete : Bool) (lexeme : Lexeme) :
    (joint voc complete lexeme).length ≤ 1 := by
  rw [joint]
  split
  · rw [List.length_map]
    exact Option.length_toList_le
  · exact Nat.zero_le 1

/-- At most one operator is put in front of each lexeme. -/
theorem length_joined_le (voc : Vocabulary) (complete : Bool) (lexemes : List Lexeme) :
    (joined voc complete lexemes).length ≤ 2 * lexemes.length := by
  induction lexemes generalizing complete with
  | nil => exact Nat.zero_le _
  | cons lexeme rest ih =>
    have hjoint := length_joint_le voc complete lexeme
    have hrest := ih lexeme.item.completes
    simp only [joined, List.length_append, List.length_cons]
    omega

/-- No operator is put in front of the first lexeme of a line. -/
theorem length_joined_lt {lexemes : List Lexeme} (hne : lexemes ≠ []) :
    (joined voc false lexemes).length < 2 * lexemes.length := by
  cases lexemes with
  | nil => exact absurd rfl hne
  | cons lexeme rest =>
    have hrest := length_joined_le voc lexeme.item.completes rest
    simp only [joined, joint_false, List.nil_append, List.length_cons]
    omega

end Lexeme

namespace Descent

variable {voc : Vocabulary}

/-- What is put in behind an operator does not change how it is read. -/
theorem orderBefore_joined (op : UnaryOperator) (items : List Lexeme) :
    orderBefore op (Lexeme.joined voc false items) = orderBefore op items := by
  cases items with
  | nil => rfl
  | cons lexeme rest => exact orderBefore_cons op lexeme _ _

namespace Place

/-- A lexeme is read in the same way with and without the operators put in behind it. -/
theorem read?_joined (lexeme : Lexeme) (rest : List Lexeme) (p : Place) :
    p.read? lexeme (Lexeme.joined voc lexeme.item.completes rest) = p.read? lexeme rest := by
  obtain ⟨item, span⟩ := lexeme
  cases p with
  | awaiting frames =>
    match item with
    | .number _ | .value _ | .opening | .closing | .operator (.between _) => rfl
    | .operator (.beside op) =>
      cases hside : op.side with
      | before => simp only [read?, hside, Item.completes_of_before hside, orderBefore_joined]
      | after => simp only [read?, hside]
  | holding frames expr => rfl

/-- Reading the operator that is put in leads to the place in front of the lexeme. -/
theorem result_joint (lexeme : Lexeme) (rest : List Lexeme) (p : Place) :
    p.result voc (Lexeme.joint voc p.complete lexeme ++ rest) =
      (p.connect voc lexeme.item).result voc rest := by
  cases p with
  | awaiting frames => rfl
  | holding frames expr =>
    cases hconnector : lexeme.item.connector? voc with
    | none =>
      rw [Lexeme.joint_of_none hconnector, connect, hconnector]
      rfl
    | some op =>
      rw [complete, Lexeme.joint_of_some hconnector, connect, hconnector]
      exact result_holding_cons frames expr rfl

/-- Behind the operator that is put in front of a lexeme none is put in. -/
theorem connect_connect (item : Item) (p : Place) :
    (p.connect voc item).connect voc item = p.connect voc item := by
  cases p with
  | awaiting frames => rfl
  | holding frames expr =>
    cases hconnector : item.connector? voc with
    | none => simp only [connect, hconnector]
    | some op =>
      simp only [connect, hconnector]
      rfl

/-- The operators that are put in change nothing when they are written. -/
theorem result_joined (items : List Lexeme) (p : Place) :
    p.result voc (Lexeme.joined voc p.complete items) = p.result voc items := by
  induction items generalizing p with
  | nil => rfl
  | cons lexeme rest ih =>
    rw [Lexeme.joined, result_joint, result_cons, result_cons p, step?, step?, connect_connect,
      read?_joined]
    cases hread : (p.connect voc lexeme.item).read? lexeme rest with
    | none => rfl
    | some p' =>
      rw [Option.bind_some, Option.bind_some, ← complete_of_read? hread]
      exact ih p'

end Place

/-- The operators that are put in change nothing when they are written. -/
theorem awaiting_joined (items : List Lexeme) :
    awaiting voc [] (Lexeme.joined voc false items) = awaiting voc [] items :=
  Place.result_joined items (.awaiting [])

end Descent

end Reckoner
