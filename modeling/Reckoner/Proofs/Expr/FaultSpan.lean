import Reckoner.Proofs.Expr.Built
import Reckoner.Vocabulary.Standard

/-!
# Faults lie on the line

Whether a line cannot be read or its expression cannot be computed, the fault is located at one or
more characters of the line. Only the empty line has none.
-/

namespace Reckoner

section

variable {voc : Vocabulary} {length : Nat}

/-- A computation at a place on the line that is at fault is at fault there. -/
theorem ends_settle {span : Span} (hspan : span.LiesOn length) (computation : Computation) :
    Ends length (fun _ ↦ True) (settle computation span) := by
  cases computation with
  | error cause => exact hspan
  | ok value =>
    rw [settle]
    split
    · trivial
    · exact hspan

/-- A fault of computing an expression lies on the line on which it is built. -/
theorem Expr.Built.ends_value {expr : Expr} (h : expr.Built voc length) :
    Ends length (fun _ ↦ True) expr.value := by
  induction h with
  | literal hspan => exact ends_settle hspan _
  | between hop hleft hright hordered ihleft ihright =>
    have hspan := (Expr.Built.between hop hleft hright hordered).liesOn
    exact ihleft.bind fun a _ ↦ ihright.bind fun b _ ↦ ends_settle hspan _
  | before hop hoperand hordered ih =>
    have hspan := (Expr.Built.before hop hoperand hordered).liesOn
    exact ih.bind fun a _ ↦ ends_settle hspan _
  | after hop hoperand hordered hspan ih =>
    have hspan := (Expr.Built.after hop hoperand hordered hspan).liesOn
    exact ih.bind fun a _ ↦ ends_settle hspan _

/-- Another cause at the same place lies on the line if the first one does. -/
theorem Ends.mapError {Cause Cause' α : Type} {kind : α → Prop} {x : Except (Located Cause) α}
    (h : Ends length kind x) (f : Cause → Cause') :
    Ends length kind (x.mapError (Located.map f)) := by
  cases x with
  | error fault => exact h
  | ok a => exact h

end

namespace Vocabulary

variable {voc : Vocabulary} {scope : Scope} {line : Line} {fault : Located Fault}

/-- The empty line has its fault at its beginning. -/
theorem span_of_calculate_nil (h : voc.calculate scope [] = .error fault) :
    fault.span = ⟨0, 0⟩ := by
  rw [calculate, parse, parseWithin_nil] at h
  cases h
  rfl

/-- The fault of any other line lies on it. -/
theorem liesOn_of_calculate (hline : line ≠ []) (h : voc.calculate scope line = .error fault) :
    fault.span.LiesOn line.length := by
  have hends : Ends line.length (fun _ ↦ True) (voc.calculate scope line) :=
    (ends_parseWithin hline).mapError _ |>.bind fun _ hbuilt ↦ hbuilt.ends_value.mapError _
  rwa [h] at hends

/-- A line without a value has its fault at one or more of its characters. The empty line has its
fault at its beginning. -/
theorem span_of_calculate_eq_error (h : voc.calculate scope line = .error fault) :
    if line = [] then fault.span = ⟨0, 0⟩
    else fault.span.start < fault.span.stop ∧ fault.span.stop ≤ line.length := by
  split
  · rename_i hline
    subst hline
    exact span_of_calculate_nil h
  · rename_i hline
    have hspan := liesOn_of_calculate hline h
    exact ⟨hspan.start_lt, hspan.stop_le⟩

/-- The quotient behind a product that is not written is at fault, and the product is not. -/
theorem span_of_calculate_joined :
    standard.calculate .bare "2(1/0)".toList = .error ⟨.computing .dividedByZero, ⟨2, 5⟩⟩ ∧
      (2 < 5 ∧ 5 ≤ "2(1/0)".toList.length) := by
  have h : standard.calculate .bare "2(1/0)".toList =
      .error ⟨.computing .dividedByZero, ⟨2, 5⟩⟩ := by rfl
  exact ⟨h, span_of_calculate_eq_error h⟩

end Vocabulary

end Reckoner
