import Reckoner.Proofs.Expr.Joined
import Reckoner.Proofs.Expr.Relocation
import Reckoner.Proofs.Expr.Subtraction
import Reckoner.Proofs.Expr.Written

/-!
# Operators that are not written, written out

Where the operator between two neighbours is not written, its symbol can be put in. The line so
written out is read as the same expression, apart from the places of its parts, and it has the same
value or the same fault.

The symbol of such an operator is one character in the standard vocabulary. It ends the number or
word in front of it, and nothing behind it makes it longer, so that it is a lexeme of its own and
leaves the others as they are. The operators themselves are those of `Lexeme.joined`.
-/

namespace Reckoner

open Descent

/-! ## Characters that are put in -/

namespace Line

/-- The characters from a position on, with others put in front of some positions, which are given
from left to right. -/
def insertAll (index : Nat) : List (Nat × List Char) → Line → Line
  | [], line => line
  | (place, text) :: insertions, line =>
    line.take (place - index) ++ text ++ insertAll place insertions (line.drop (place - index))

theorem insertAll_cons_self (index : Nat) (text : List Char)
    (insertions : List (Nat × List Char)) (line : Line) :
    insertAll index ((index, text) :: insertions) line =
      text ++ insertAll index insertions line := by
  rw [insertAll, Nat.sub_self]
  rfl

/-- What is put in behind some characters leaves them as they are. -/
theorem insertAll_append {index : Nat} {text : List Char} {insertions : List (Nat × List Char)}
    (h : ∀ insertion ∈ insertions, index + text.length ≤ insertion.1) (line : Line) :
    insertAll index insertions (text ++ line) =
      text ++ insertAll (index + text.length) insertions line := by
  cases insertions with
  | nil => rfl
  | cons insertion insertions =>
    obtain ⟨place, inserted⟩ := insertion
    have hle : index + text.length ≤ place := h _ List.mem_cons_self
    have htext : text.length ≤ place - index := Nat.le_sub_of_add_le' hle
    rw [insertAll, insertAll, List.take_append, List.drop_append, List.take_of_length_le htext,
      List.drop_eq_nil_of_le htext, Nat.sub_sub, List.nil_append, List.append_assoc,
      List.append_assoc, List.append_assoc]

end Line

namespace Lexeme

/-- The symbols of the operators that are put between lexemes, behind a complete value or in front
of an operand, and where they are put in. -/
def insertions (voc : Vocabulary) (complete : Bool) : List Lexeme → List (Nat × List Char)
  | [] => []
  | lexeme :: rest =>
    (if complete then
      (lexeme.item.connector? voc).toList.map fun op ↦ (lexeme.span.start, op.symbol.toList)
    else []) ++ insertions voc lexeme.item.completes rest

/-- In front of a lexeme one operator is put in, or none. -/
theorem insertions_cons (voc : Vocabulary) (complete : Bool) (lexeme : Lexeme)
    (rest : List Lexeme) :
    (∃ op, lexeme.item.connector? voc = some op ∧
      joint voc complete lexeme = [⟨.operator (.between op), .before lexeme.span.start⟩] ∧
      insertions voc complete (lexeme :: rest) =
        (lexeme.span.start, op.symbol.toList) :: insertions voc lexeme.item.completes rest) ∨
    (joint voc complete lexeme = [] ∧
      insertions voc complete (lexeme :: rest) = insertions voc lexeme.item.completes rest) := by
  cases complete with
  | false => exact .inr ⟨rfl, rfl⟩
  | true =>
    cases hconnector : lexeme.item.connector? voc with
    | none => exact .inr ⟨joint_of_none hconnector true, by simp [insertions, hconnector]⟩
    | some op =>
      exact .inl ⟨op, rfl, joint_of_some hconnector, by simp [insertions, hconnector]⟩

end Lexeme

namespace Vocabulary

variable {voc : Vocabulary} {scope : Scope} {index : Nat} {line text : List Char} {item : Item}
  {belongs : Char → Bool} {lexemes : List Lexeme}

/-- The operators that are put in are signs. -/
def JoinsBySigns (voc : Vocabulary) : Prop :=
  ∀ item op, Item.connector? voc item = some op →
    ∃ c, op.symbol.toList = [c] ∧ voc.sign? c = some (.between op)

/-- What ends numbers and words ends every lexeme. -/
theorem Denotes.stops (h : voc.Denotes scope text item belongs) (hparts : voc.Parts line) :
    Stops belongs line := by
  cases h with
  | opening | closing | sign => exact fun _ _ ↦ rfl
  | number => exact hparts.number
  | operator | value => exact hparts.word

/-- What is put in between characters is put in behind their first position. -/
theorem Lexes.le_of_mem_insertions (h : voc.Lexes scope index line lexemes) (complete : Bool) :
    ∀ insertion ∈ Lexeme.insertions voc complete lexemes, index ≤ insertion.1 := by
  induction h generalizing complete with
  | nil => exact fun _ ↦ nofun
  | blank _ _ ih => exact fun insertion hmem ↦ Nat.le_of_succ_le (ih complete insertion hmem)
  | @token index text line item belongs lexemes _ _ _ ih =>
    have hrest (insertion : Nat × List Char)
        (hmem : insertion ∈ Lexeme.insertions voc item.completes lexemes) : index ≤ insertion.1 :=
      Nat.le_trans (Nat.le_add_right _ _) (ih _ insertion hmem)
    rcases Lexeme.insertions_cons voc complete ⟨item, ⟨index, index + text.length⟩⟩ lexemes with
      ⟨op, -, -, heq⟩ | ⟨-, heq⟩
    · rw [heq]
      exact List.forall_mem_cons.mpr ⟨Nat.le_refl _, hrest⟩
    · rwa [heq]

/-- The characters of a lexeme stay together. -/
theorem Lexes.insertAll_append (h : voc.Lexes scope (index + text.length) line lexemes)
    (complete : Bool) :
    Line.insertAll index (Lexeme.insertions voc complete lexemes) (text ++ line) =
      text ++ Line.insertAll (index + text.length) (Lexeme.insertions voc complete lexemes) line :=
  Line.insertAll_append (h.le_of_mem_insertions complete) line

/-- Where a lexeme ends, it ends with the symbols put in. -/
theorem Lexes.stops_insertAll (hvoc : voc.JoinsBySigns) (h : voc.Lexes scope index line lexemes)
    (htext : voc.Denotes scope text item belongs) (hstops : Stops belongs line)
    (complete : Bool) :
    Stops belongs (Line.insertAll index (Lexeme.insertions voc complete lexemes) line) := by
  cases h with
  | nil => exact hstops
  | @blank _ c line _ hc h =>
    rw [← List.singleton_append, h.insertAll_append]
    exact hstops
  | @token _ text' line item' _ lexemes htext' _ h =>
    rcases Lexeme.insertions_cons voc complete ⟨item', ⟨index, index + text'.length⟩⟩ lexemes with
      ⟨op, hconnector, -, heq⟩ | ⟨-, heq⟩
    · obtain ⟨c, hsymbol, hsign⟩ := hvoc _ op hconnector
      rw [heq, Line.insertAll_cons_self, hsymbol]
      exact htext.stops (.sign hsign)
    · rw [heq, h.insertAll_append]
      intro c hc
      rw [List.head?_append_of_ne_nil _ htext'.ne_nil] at hc
      refine hstops c ?_
      rwa [List.head?_append_of_ne_nil _ htext'.ne_nil]

/-- With the symbols put in the characters write the items with the operators put in. -/
theorem Lexes.writes_insertAll (hvoc : voc.JoinsBySigns) (h : voc.Lexes scope index line lexemes)
    (complete : Bool) :
    voc.Writes scope (Line.insertAll index (Lexeme.insertions voc complete lexemes) line)
      ((Lexeme.joined voc complete lexemes).map Lexeme.item) := by
  induction h generalizing complete with
  | nil => exact .nil
  | @blank index c line lexemes hc h ih =>
    rw [← List.singleton_append, h.insertAll_append]
    exact (ih complete).blank hc
  | @token index text line item belongs lexemes htext hstops h ih =>
    have hwrites := (ih item.completes).token htext (h.stops_insertAll hvoc htext hstops _)
    rw [Lexeme.joined, List.map_append]
    rcases Lexeme.insertions_cons voc complete ⟨item, ⟨index, index + text.length⟩⟩ lexemes with
      ⟨op, hconnector, hjoint, heq⟩ | ⟨hjoint, heq⟩
    · obtain ⟨c, hsymbol, hsign⟩ := hvoc _ op hconnector
      rw [heq, hjoint, Line.insertAll_cons_self, hsymbol, h.insertAll_append]
      exact hwrites.sign hsign
    · rw [heq, hjoint, h.insertAll_append]
      exact hwrites

end Vocabulary

/-! ## Reading the line that is written out -/

namespace Expr

/-- Without places an expression is as if all its parts were in one place. -/
theorem unplaced_eq_relocate (expr : Expr) : expr.unplaced = expr.relocate .forget := by
  induction expr with
  | literal => rfl
  | unary op operand span ih =>
    rw [unplaced, relocate, ih]
    rfl
  | binary op left right span ihleft ihright =>
    rw [unplaced, relocate, ihleft, ihright]
    rfl

/-- The value or the cause of a fault does not depend on places. -/
theorem outcome_unplaced (expr : Expr) : expr.unplaced.outcome = expr.outcome := by
  induction expr with
  | literal => rw [unplaced, outcome_literal, outcome_literal]
  | unary op operand span ih => rw [unplaced, outcome_unary, outcome_unary, ih]
  | binary op left right span ihleft ihright =>
    rw [unplaced, outcome_binary, outcome_binary, ihleft, ihright]

end Expr

/-- Lexemes that are the same up to their places come to expressions that are. -/
theorem Descent.exists_awaiting_of_items_eq {voc : Vocabulary} {lexemes lexemes' : List Lexeme}
    {expr : Expr} (hitems : lexemes'.map Lexeme.item = lexemes.map Lexeme.item)
    (hresult : awaiting voc [] lexemes = some expr) :
    ∃ expr', awaiting voc [] lexemes' = some expr' ∧ expr'.unplaced = expr.unplaced := by
  have hforget (lexemes : List Lexeme) : lexemes.map (Lexeme.relocate .forget) =
      (lexemes.map Lexeme.item).map fun item ↦ ⟨item, ⟨0, 0⟩⟩ := by
    rw [List.map_map]
    rfl
  have hsame := awaiting_relocate .forget voc lexemes'
  rw [hforget, hitems, ← hforget, awaiting_relocate, hresult] at hsame
  obtain ⟨expr', hexpr', heq⟩ := Option.map_eq_some_iff.mp hsame.symm
  exact ⟨expr', hexpr', by rw [expr'.unplaced_eq_relocate, heq, expr.unplaced_eq_relocate]⟩

namespace Vocabulary

/-- The standard operators that are put in are the product and the sum. -/
theorem joinsBySigns_standard : standard.JoinsBySigns := by
  have hsign {op : BinaryOperator} (hop : op ∈ standard.binary) (c : Char)
      (hsingle : single? op.symbol = some c) :
      ∃ c, op.symbol.toList = [c] ∧ standard.sign? c = some (.between op) :=
    ⟨c, toList_eq_of_single? hsingle, sign?_of_binary hop hsingle⟩
  intro item op h
  rcases Item.eq_of_connector? h with rfl | rfl
  · exact hsign standard.multiplication_mem '*' (by decide +kernel)
  · exact hsign standard.addition_mem '+' (by decide +kernel)

variable {scope : Scope} {line : Line} {expr : Expr}

/-- With each operator that is not written put in by its symbol, a line is read as the same
expression, apart from places, and has the same value or the same fault. -/
theorem exists_parse_insertAll (hparse : standard.parse scope line = .ok expr) :
    ∃ lexemes expr', (Token.ofLine standard line).mapM (Token.lexeme standard scope) =
        .ok lexemes ∧
      standard.parse scope
        (Line.insertAll 0 (Lexeme.insertions standard false lexemes) line) = .ok expr' ∧
      expr'.unplaced = expr.unplaced ∧
      (standard.calculate scope
          (Line.insertAll 0 (Lexeme.insertions standard false lexemes) line)).mapError
        Located.cause = (standard.calculate scope line).mapError Located.cause := by
  obtain ⟨⟨lexemes, hlexes, hresult⟩, hheight⟩ := parse_eq_ok_iff_lexes.mp hparse
  obtain ⟨lexemes', hlexemes', hitems⟩ := hlexes.writes_insertAll joinsBySigns_standard false 0
  rw [← awaiting_joined] at hresult
  obtain ⟨expr', hresult', heq⟩ := exists_awaiting_of_items_eq hitems hresult
  have hheight' : expr'.height ≤ heightLimit := by
    rw [← expr'.height_unplaced, heq, expr.height_unplaced]
    exact hheight
  have hparse' := ((Lexes.of_mapM_scan _ hlexemes').parse_eq_ok_iff hresult').mpr hheight'
  refine ⟨lexemes, expr', hlexes.mapM_scan, hparse', heq, ?_⟩
  rw [mapError_calculate_of_parse hparse, mapError_calculate_of_parse hparse',
    ← expr'.outcome_unplaced, heq, expr.outcome_unplaced]

/-- A product with a constant, one with a bracket and one with a function, and a difference. -/
theorem exists_parse_insertAll_standard :
    ∃ expr expr', standard.parse .bare "2pi -3! sqrt 4(1)".toList = .ok expr ∧
      standard.parse .bare "2*pi +-3! *sqrt 4*(1)".toList = .ok expr' ∧
      expr'.unplaced = expr.unplaced ∧
      (standard.calculate .bare "2*pi +-3! *sqrt 4*(1)".toList).mapError Located.cause =
        (standard.calculate .bare "2pi -3! sqrt 4(1)".toList).mapError Located.cause := by
  have hchecked : (standard.parse .bare "2pi -3! sqrt 4(1)".toList).toOption.isSome = true := by
    decide +kernel
  obtain ⟨expr, hparse⟩ := exists_of_isSome_toOption hchecked
  obtain ⟨lexemes, expr', hlexemes, hparse', heq, hvalue⟩ := exists_parse_insertAll hparse
  have hwritten : ((Token.ofLine standard "2pi -3! sqrt 4(1)".toList).mapM
      (Token.lexeme standard .bare)).toOption.map (fun lexemes ↦
        Line.insertAll 0 (Lexeme.insertions standard false lexemes) "2pi -3! sqrt 4(1)".toList) =
      some "2*pi +-3! *sqrt 4*(1)".toList := by
    decide +kernel
  rw [hlexemes] at hwritten
  have hline : Line.insertAll 0 (Lexeme.insertions standard false lexemes)
      "2pi -3! sqrt 4(1)".toList = "2*pi +-3! *sqrt 4*(1)".toList := Option.some.inj hwritten
  rw [hline] at hparse' hvalue
  exact ⟨expr, expr', hparse, hparse', heq, hvalue⟩

end Vocabulary

end Reckoner
