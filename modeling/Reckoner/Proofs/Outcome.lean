import Reckoner.Outcome
import Reckoner.Proofs.Fallible

/-!
# Lines that declare

An outcome is a declaration only if the line has the form of one, its name is free, and its
expression has a value. Hence a declared name consists of letters and underscores, no vocabulary
reserves it, and a declared value is finite.
-/

namespace Reckoner

/-! ## Values -/

/-- What a computation settles to is finite. -/
theorem isFinite_of_settle {computation : Computation} {span : Span} {value : Float}
    (h : settle computation span = .ok value) : value.isFinite = true := by
  cases computation with
  | error cause => simp [settle] at h
  | ok result =>
    simp only [settle] at h
    split at h
    · rename_i hfinite
      cases h
      exact hfinite
    · simp at h

/-- The value of an expression is finite. -/
theorem Expr.isFinite_of_value {expr : Expr} {value : Float} (h : expr.value = .ok value) :
    value.isFinite = true := by
  cases expr with
  | literal v span => exact isFinite_of_settle h
  | unary op operand span =>
    obtain ⟨a, -, h⟩ := bind_eq_ok_iff.mp h
    exact isFinite_of_settle h
  | binary op left right span =>
    obtain ⟨a, -, h⟩ := bind_eq_ok_iff.mp h
    obtain ⟨b, -, h⟩ := bind_eq_ok_iff.mp h
    exact isFinite_of_settle h

/-- The value of a line is finite. -/
theorem Vocabulary.isFinite_of_calculate {voc : Vocabulary} {scope : Scope} {line : Line}
    {value : Float} (h : voc.calculate scope line = .ok value) : value.isFinite = true := by
  obtain ⟨expr, -, h⟩ := bind_eq_ok_iff.mp h
  exact Expr.isFinite_of_value (mapError_eq_ok_iff.mp h)

/-! ## Names -/

/-- A name that a declaration may declare: letters and underscores, and at least one of them. -/
def Declaration.IsName (name : String) : Prop :=
  name ≠ "" ∧ ∀ c ∈ name.toList, c.isAlpha = true ∨ c = '_'

/-- The characters that a declaration is taken apart into pass as a name exactly if they are one. -/
theorem Declaration.isName_ofList_iff {name : Line} :
    IsName (String.ofList name) ↔ ¬(name.isEmpty || !name.all isNameChar) = true := by
  simp only [IsName, isNameChar, String.toList_ofList, ne_eq, String.ofList_eq_empty_iff,
    Bool.or_eq_true, List.isEmpty_iff, Bool.not_eq_true', not_or, Bool.not_eq_false,
    List.all_eq_true, beq_iff_eq]

/-- A declaration that can be taken apart has a name that is well formed and free. -/
theorem Declaration.isName_of_parse {isReserved : String → Bool} {line : Line}
    {declaration : Declaration} (h : Declaration.parse isReserved line = .ok declaration) :
    Declaration.IsName declaration.name ∧ isReserved declaration.name = false := by
  simp only [parse] at h
  split at h
  · simp at h
  · split at h
    · simp at h
    · rename_i hname
      split at h
      · simp at h
      · rename_i hfree
        cases h
        exact ⟨isName_ofList_iff.mpr hname, Bool.eq_false_iff.mpr hfree⟩

/-! ## Outcomes -/

deriving instance DecidableEq for Outcome

namespace Outcome

variable {voc : Vocabulary} {scope : Scope} {line : Line}

/-- A line declares a variable exactly if it has the form of a declaration, can be taken apart, and
its expression has the value declared. -/
theorem ofLine_eq_declared_iff {name : String} {value : Float} :
    ofLine voc scope line = .declared name value ↔
      LineKind.of line = .declaration ∧
        ∃ d, Declaration.parse voc.isReserved line = .ok d ∧ d.name = name ∧
          voc.calculate scope d.expression.trimEnd = .ok value := by
  cases hkind : LineKind.of line with
  | blank => simp [ofLine, hkind]
  | comment => simp [ofLine, hkind]
  | expression =>
    simp only [ofLine, hkind]
    cases voc.calculate scope line.trimEnd <;> simp [ofResult]
  | declaration =>
    simp only [ofLine, hkind, ofDeclaration, true_and]
    cases Declaration.parse voc.isReserved line with
    | error e => simp
    | ok d =>
      cases hvalue : voc.calculate scope d.expression.trimEnd with
      | error e => simp [ofResult, hvalue]
      | ok v => simp [ofResult, hvalue]

/-- A declared name is well formed and free, and a declared value is finite. -/
theorem of_ofLine_eq_declared {name : String} {value : Float}
    (h : ofLine voc scope line = .declared name value) :
    Declaration.IsName name ∧ voc.isReserved name = false ∧ value.isFinite = true := by
  obtain ⟨-, d, hparse, rfl, hvalue⟩ := ofLine_eq_declared_iff.mp h
  obtain ⟨hname, hfree⟩ := Declaration.isName_of_parse hparse
  exact ⟨hname, hfree, Vocabulary.isFinite_of_calculate hvalue⟩

end Outcome

end Reckoner
