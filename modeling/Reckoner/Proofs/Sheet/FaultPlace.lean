import Mathlib.Data.List.DropRight
import Reckoner.Calculator
import Reckoner.Proofs.Declaration.Form
import Reckoner.Proofs.Expr.FaultSpan
import Reckoner.Proofs.Sheet.History

/-!
# Where the lines of a sheet are at fault

An outcome has the place of its fault on the whole line. A declaration that cannot be taken apart is
at fault there anyway. An expression is read without the blanks at its end, which moves nothing, and
the expression of a declaration has its fault moved by the characters in front of it. So every place
is on the line, and on the line it is about the characters that it is about in the expression.

A place without a character stands for what is not written: the expression of a declaration, or all
of a declaration behind its keyword.
-/

namespace Reckoner

/-! ## Characters of a line -/

namespace Line

variable {line : Line}

/-- The characters that a span selects. -/
def select (line : Line) (span : Span) : Line := (line.take span.stop).drop span.start

/-- A span that is moved to the end of a line selects there what it selects in the end alone. -/
theorem select_append_shift (front rest : Line) (span : Span) :
    (front ++ rest).select (span.shift front.length) = rest.select span := by
  rw [select, Span.start_shift, Span.stop_shift, Nat.add_comm span.start, Nat.add_comm span.stop,
    List.take_length_add_append, List.drop_length_add_append, select]

theorem length_trimEnd_le (line : Line) : line.trimEnd.length ≤ line.length :=
  (List.rdropWhile_prefix isBlank line).length_le

theorem trimEnd_eq_nil_iff : line.trimEnd = [] ↔ ∀ c ∈ line, isBlank c = true :=
  List.rdropWhile_eq_nil_iff

end Line

/-- A line that is an expression is not blank throughout. -/
theorem LineKind.not_forall_isBlank {line : Line} (h : LineKind.of line = .expression) :
    ¬∀ c ∈ line, isBlank c = true := by
  intro hblank
  have hstart : line.trimStart = [] := List.dropWhile_eq_nil_iff.mpr hblank
  rw [of, Line.trim, hstart] at h
  cases h

/-! ## Faults of an expression -/

/-- A fault of a text lies on it. Only a blank text is at fault without a character, at its
beginning. -/
theorem Calculator.span_of_evaluate {calculator : Calculator} {text : Line} {fault : Located Fault}
    (h : calculator.evaluate text = .error fault) :
    fault.span.start ≤ fault.span.stop ∧ fault.span.stop ≤ text.length ∧
      (fault.span.start = fault.span.stop →
        (∀ c ∈ text, isBlank c = true) ∧ fault.span.start = 0) := by
  rw [evaluate] at h
  -- Blanks are taken off at the end alone, so what is left keeps its positions.
  by_cases hnil : text.trimEnd = []
  · rw [hnil] at h
    rw [Vocabulary.span_of_calculate_nil h]
    exact ⟨Nat.le_refl 0, Nat.zero_le _, fun _ ↦ ⟨Line.trimEnd_eq_nil_iff.mp hnil, rfl⟩⟩
  · have hspan := Vocabulary.liesOn_of_calculate hnil h
    exact ⟨Nat.le_of_lt hspan.start_lt, Nat.le_trans hspan.stop_le text.length_trimEnd_le,
      fun heq ↦ absurd heq (Nat.ne_of_lt hspan.start_lt)⟩

/-- An outcome is at fault exactly if the expression is, at the same place moved by the offset. -/
theorem Outcome.ofResult_eq_fault_iff {onValue : Float → Outcome}
    (hvalue : ∀ value, (onValue value).isFault = false) {offset : Nat}
    {result : Except (Located Fault) Float} {message : String} {span : Span} :
    ofResult onValue offset result = .fault message span ↔
      ∃ fault, result = .error fault ∧ fault.cause.message = message ∧
        fault.span.shift offset = span := by
  cases result with
  | error fault => simp [ofResult]
  | ok value =>
    have hne : onValue value ≠ .fault message span := fun heq ↦ by
      simpa [heq, isFault] using hvalue value
    simp [ofResult, hne]

/-! ## Faults of a line -/

/-- The place of a fault on a line that a calculator stands on. -/
structure FaultPlace (calculator : Calculator) (line : Line) (message : String) (span : Span) :
    Prop where
  start_le : span.start ≤ span.stop
  stop_le : span.stop ≤ line.length
  /-- A declaration that can be taken apart has the fault of its expression, at the same
  characters. -/
  of_declaration : ∀ declaration, LineKind.of line = .declaration →
    Declaration.parse calculator.vocabulary.isReserved line = .ok declaration →
    ∃ fault, calculator.evaluate declaration.expression = .error fault ∧
      fault.cause.message = message ∧ fault.span.shift declaration.offset = span ∧
      line.select span = declaration.expression.select fault.span
  /-- Only a declaration is at fault without a character: directly behind its colon if nothing but
  blanks follows that, or if nothing follows the spaces that lead. -/
  of_start_eq_stop : span.start = span.stop → LineKind.of line = .declaration ∧
    ((∃ front blanks, line = front ++ ':' :: blanks ∧ ':' ∉ front ∧
        (∀ c ∈ blanks, isBlank c = true) ∧ span.start = front.length + 1) ∨
      Declaration.body line = [])

namespace FaultPlace

variable {calculator : Calculator} {line : Line} {message : String} {span : Span}

/-- An expression has the place that the calculator gives. -/
theorem of_expression (hkind : LineKind.of line = .expression) {fault : Located Fault}
    (h : calculator.evaluate line = .error fault) :
    FaultPlace calculator line fault.cause.message fault.span := by
  obtain ⟨hle, hstop, hempty⟩ := Calculator.span_of_evaluate h
  refine ⟨hle, hstop, fun _ hdeclaration ↦ ?_, fun heq ↦ ?_⟩
  · rw [hkind] at hdeclaration
    cases hdeclaration
  · exact absurd (hempty heq).1 (LineKind.not_forall_isBlank hkind)

/-- A declaration that cannot be taken apart has the place where this fails. -/
theorem of_parse_eq_error (hkind : LineKind.of line = .declaration)
    {fault : Located DeclarationFault}
    (h : Declaration.parse calculator.vocabulary.isReserved line = .error fault) :
    FaultPlace calculator line message fault.span := by
  obtain ⟨hle, hstop, hempty⟩ := Declaration.span_of_parse_eq_error h
  refine ⟨hle, hstop, fun _ _ hok ↦ ?_, fun heq ↦ ⟨hkind, .inr (hempty heq)⟩⟩
  rw [h] at hok
  cases hok

/-- A declaration that can be taken apart has the place that the calculator gives, moved by the
characters in front of the expression. -/
theorem of_parse_eq_ok (hkind : LineKind.of line = .declaration) {declaration : Declaration}
    (h : Declaration.parse calculator.vocabulary.isReserved line = .ok declaration)
    {fault : Located Fault} (hfault : calculator.evaluate declaration.expression = .error fault) :
    FaultPlace calculator line fault.cause.message (fault.span.shift declaration.offset) := by
  obtain ⟨parts, rfl, -, rfl⟩ := Declaration.parse_eq_ok_iff.mp h
  obtain ⟨hle, hstop, hempty⟩ := Calculator.span_of_evaluate hfault
  have hselect : parts.text.select (fault.span.shift parts.declaration.offset) =
      parts.expression.select fault.span := by
    have hlength : (parts.front ++ [':']).length = parts.declaration.offset := by
      rw [List.length_append, List.length_singleton, parts.length_front]
    have htext : parts.text = (parts.front ++ [':']) ++ parts.expression := by
      rw [parts.text_eq, List.append_assoc, List.singleton_append]
    rw [htext, ← hlength, Line.select_append_shift]
  refine ⟨Nat.add_le_add_right hle _, ?_, fun d _ hd ↦ ?_, fun heq ↦ ⟨hkind, .inl ?_⟩⟩
  · rw [parts.length_text, Nat.add_comm]
    exact Nat.add_le_add_right hstop _
  · rw [h] at hd
    cases hd
    exact ⟨fault, hfault, rfl, rfl, hselect⟩
  · obtain ⟨hblank, hstart⟩ := hempty (Nat.add_right_cancel heq)
    refine ⟨parts.front, parts.expression, parts.text_eq, parts.notMem_front hkind, hblank, ?_⟩
    rw [Span.start_shift, hstart, Nat.zero_add, parts.length_front]

/-- A fault that a line comes to has a place. -/
theorem of_ofLine
    (h : Outcome.ofLine calculator.vocabulary (calculator.bindings.scope calculator.line) line =
      .fault message span) :
    FaultPlace calculator line message span := by
  rw [Outcome.ofLine] at h
  cases hkind : LineKind.of line with
  | blank =>
    rw [hkind] at h
    cases h
  | comment =>
    rw [hkind] at h
    cases h
  | expression =>
    rw [hkind] at h
    obtain ⟨fault, hfault, rfl, rfl⟩ := (Outcome.ofResult_eq_fault_iff fun _ ↦ rfl).mp h
    exact of_expression hkind hfault
  | declaration =>
    rw [hkind] at h
    simp only [Outcome.ofDeclaration] at h
    split at h
    · rename_i fault hparse
      cases h
      exact of_parse_eq_error hkind hparse
    · rename_i declaration hparse
      obtain ⟨fault, hfault, rfl, rfl⟩ := (Outcome.ofResult_eq_fault_iff fun _ ↦ rfl).mp h
      exact of_parse_eq_ok hkind hparse hfault

end FaultPlace

namespace Sheet

variable {voc : Vocabulary} {calls : List Call} {lines : List Line}

/-- Whatever was computed before, a pass leaves each fault at a place of its line. -/
theorem faultPlace_evaluate_after {i : Nat} {line : Line} {message : String} {span : Span}
    (hline : lines[i]? = some line)
    (hfault : ((after voc calls).evaluate lines).outcomes[i]? = some (.fault message span)) :
    FaultPlace ⟨voc, ((after voc calls).evaluate lines).bindings, i⟩ line message span := by
  obtain ⟨hcurrent, hlines⟩ := (Current.after voc calls).evaluate lines
  have houtcome := hcurrent.getElem?_outcomes hlines hline
  exact .of_ofLine (Option.some.inj (houtcome.symm.trans hfault))

/-- A quotient behind a wide blank is at fault since the line above it was edited, and the place is
that of the quotient on the line. -/
theorem faultPlace_evaluate_after_quotient :
    let line := "Dim  b :\u3000 2 + (4 / a) ".toList
    let lines := ["dim a: 0".toList, line]
    let sheet := (after .standard [.evaluate ["dim a: 2".toList, line]]).evaluate lines
    lines[1]? = some line ∧
      sheet.outcomes[1]? = some (.fault "Divided By Zero" ⟨15, 20⟩) ∧
      FaultPlace ⟨.standard, sheet.bindings, 1⟩ line "Divided By Zero" ⟨15, 20⟩ ∧
      Line.select line ⟨15, 20⟩ = "4 / a".toList := by
  intro line lines sheet
  have hline : lines[1]? = some line := rfl
  have hfault : sheet.outcomes[1]? = some (.fault "Divided By Zero" ⟨15, 20⟩) := by
    decide +kernel
  exact ⟨hline, hfault, faultPlace_evaluate_after hline hfault, by decide⟩

end Sheet

end Reckoner
