import Reckoner.Proofs.Sheet.Standing

/-!
# Histories of a sheet

A sheet is computed again and again as its document is edited, and now and then it is reset. Between
the calls it keeps rows, bindings and slots. Whatever the calls were, these stand for the lines that
were computed last, and nothing is bound below them. As rows that stand are unique, the history of a
sheet cannot be told from its outcomes, its report or its bindings, and the outcomes alone say what
each line sees.
-/

namespace Reckoner

/-- A call that changes a sheet. -/
inductive Call where
  | evaluate (lines : List Line)
  | reset

namespace Sheet

/-- The sheet after a call. -/
def call (sheet : Sheet) : Call → Sheet
  | .evaluate lines => sheet.evaluate lines
  | .reset => sheet.reset

/-- A sheet after a history of calls, the first of which found it new. -/
def after (voc : Vocabulary) (calls : List Call) : Sheet := calls.foldl call (new voc)

/-- The rows of a sheet stand, and no line below them binds anything. -/
structure Current (voc : Vocabulary) (sheet : Sheet) : Prop where
  vocabulary_eq : sheet.vocabulary = voc
  standing : Standing voc sheet.bindings 0 sheet.rows
  unbound : ∀ i, sheet.rows.length ≤ i → sheet.bindings.at? i = none

namespace Current

variable {voc : Vocabulary} {sheet sheet' : Sheet}

/-- A sheet without lines and bindings is current. -/
theorem of_empty {bindings : Bindings} (h : ∀ i, bindings.at? i = none) :
    Current voc ⟨voc, bindings, []⟩ :=
  ⟨rfl, .nil 0, fun i _ ↦ h i⟩

/-- A new sheet is current. -/
theorem new (voc : Vocabulary) : Current voc (new voc) := of_empty fun _ ↦ rfl

/-- A pass over any lines keeps a sheet current. -/
theorem evaluate (h : Current voc sheet) (lines : List Line) :
    Current voc (sheet.evaluate lines) ∧ (sheet.evaluate lines).rows.map Row.line = lines := by
  obtain ⟨rfl, hstanding, -⟩ := h
  have hsettles : Pass.Settles sheet.vocabulary 0 sheet.bindings lines
      (Pass.run sheet.vocabulary 0 false sheet.bindings sheet.rows lines) :=
    Pass.settles_run lines fun _ ↦ hstanding
  obtain ⟨hlines, hpass, -⟩ := hsettles
  have hlength := congrArg List.length hlines
  rw [List.length_map] at hlength
  refine ⟨⟨rfl, hpass.congr fun i hi ↦ ?_, fun i hi ↦ ?_⟩, hlines⟩
  · rw [Sheet.evaluate, Bindings.at?_truncate, if_pos (by rwa [Nat.zero_add, hlength] at hi)]
    rfl
  · rw [Sheet.evaluate, Bindings.at?_truncate, if_neg]
    exact Nat.not_lt.mpr (hlength ▸ hi)

/-- A call keeps a sheet current. -/
theorem call (h : Current voc sheet) (c : Call) : Current voc (sheet.call c) := by
  cases c with
  | evaluate lines => exact (h.evaluate lines).1
  | reset =>
    obtain ⟨rfl, -, -⟩ := h
    exact of_empty fun i ↦ by rw [Bindings.at?_truncate, if_neg (Nat.not_lt_zero i)]

/-- After any history a sheet is current. -/
theorem after (voc : Vocabulary) (calls : List Call) : Current voc (after voc calls) := by
  have run (calls : List Call) : ∀ sheet, Current voc sheet →
      Current voc (calls.foldl Sheet.call sheet) := by
    induction calls with
    | nil => exact fun _ h ↦ h
    | cons c calls ih => exact fun sheet h ↦ ih _ (h.call c)
  exact run calls _ (new voc)

/-- Two current sheets with the same lines have the same outcomes and bind the same. -/
theorem unique (h : Current voc sheet) (h' : Current voc sheet')
    (hlines : sheet.rows.map Row.line = sheet'.rows.map Row.line) :
    sheet.outcomes = sheet'.outcomes ∧ ∀ i, sheet.bindings.at? i = sheet'.bindings.at? i := by
  obtain ⟨houtcomes, hslots⟩ := h.standing.unique h'.standing hlines fun i hi ↦
    absurd hi (Nat.not_lt_zero i)
  have hlength := congrArg List.length hlines
  rw [List.length_map, List.length_map] at hlength
  refine ⟨houtcomes, fun i ↦ ?_⟩
  by_cases hi : i < sheet.rows.length
  · exact hslots i (by rwa [Nat.zero_add])
  · have hi := Nat.le_of_not_lt hi
    rw [h.unbound i hi, h'.unbound i (hlength ▸ hi)]

/-- The slot of a line of a current sheet holds the binding of its outcome. -/
theorem at?_eq (h : Current voc sheet) (i : Nat) :
    sheet.bindings.at? i = sheet.outcomes[i]?.bind Outcome.binding? := by
  rw [outcomes, List.getElem?_map]
  cases hrow : sheet.rows[i]? with
  | none => exact h.unbound i (List.getElem?_eq_none_iff.mp hrow)
  | some row => simpa using h.standing.at?_getElem? hrow

/-- The slot of a line of a current sheet holds a binding exactly if the outcome of the line
declares it. -/
theorem at?_eq_some_iff (h : Current voc sheet) {i : Nat} {name : String} {value : Float} :
    sheet.bindings.at? i = some ⟨name, value⟩ ↔
      sheet.outcomes[i]? = some (.declared name value) := by
  rw [h.at?_eq, Option.bind_eq_some_iff]
  constructor
  · rintro ⟨outcome, hi, hbinding⟩
    cases outcome with
    | declared n v =>
      cases hbinding
      exact hi
    | _ => simp [Outcome.binding?] at hbinding
  · exact fun hi ↦ ⟨_, hi, rfl⟩

/-- The outcome of a line of a current sheet is what the line comes to in its scope. -/
theorem getElem?_outcomes (h : Current voc sheet) {lines : List Line}
    (hlines : sheet.rows.map Row.line = lines) {i : Nat} {line : Line}
    (hi : lines[i]? = some line) :
    sheet.outcomes[i]? = some (Outcome.ofLine voc (sheet.bindings.scope i) line) := by
  subst hlines
  rw [List.getElem?_map, Option.map_eq_some_iff] at hi
  obtain ⟨row, hrow, rfl⟩ := hi
  rw [outcomes, List.getElem?_map, hrow, Option.map_some, h.standing.outcome_getElem? hrow,
    Nat.zero_add]

end Current

variable (voc : Vocabulary) (calls : List Call) (lines : List Line)

/-- Whatever was computed before, a pass leaves a sheet with the outcomes, the report and the
bindings that a new sheet has after a pass over the same lines: no line that was kept is stale. -/
theorem evaluate_after_eq_evaluate_new :
    ((after voc calls).evaluate lines).outcomes = ((new voc).evaluate lines).outcomes ∧
      ((after voc calls).evaluate lines).report = ((new voc).evaluate lines).report ∧
      ∀ i, ((after voc calls).evaluate lines).bindings.at? i =
        ((new voc).evaluate lines).bindings.at? i := by
  obtain ⟨hafter, hlines⟩ := (Current.after voc calls).evaluate lines
  obtain ⟨hnew, hlines'⟩ := (Current.new voc).evaluate lines
  obtain ⟨houtcomes, hslots⟩ := hafter.unique hnew (hlines.trans hlines'.symm)
  exact ⟨houtcomes, by rw [report, report, houtcomes], hslots⟩

/-- The value is the one that the outcomes above a line declare last for a name. -/
def IsDeclaredAbove (outcomes : List Outcome) (line : Nat) (name : String) (value : Float) : Prop :=
  ∃ j < line, outcomes[j]? = some (.declared name value) ∧
    ∀ k, j < k → k < line → ∀ other, outcomes[k]? ≠ some (.declared name other)

/-- A sheet says what a document comes to. -/
structure Computes (voc : Vocabulary) (lines : List Line) (sheet : Sheet) : Prop where
  /-- Every line has one outcome. -/
  length_eq : sheet.outcomes.length = lines.length
  /-- It is what the line comes to in the scope that gives each name the value declared last above
  the line, and no value to a name that is not declared there. -/
  outcome_eq : ∀ i line, lines[i]? = some line → ∃ scope : Scope,
    (∀ name value, scope.lookup? name = some value ↔
      IsDeclaredAbove sheet.outcomes i name value) ∧
    sheet.outcomes[i]? = some (Outcome.ofLine voc scope line)
  /-- A slot holds what the outcome of its line declares, and nothing else. -/
  at?_eq_some_iff : ∀ i name value, sheet.bindings.at? i = some ⟨name, value⟩ ↔
    sheet.outcomes[i]? = some (.declared name value)
  /-- What is declared is a finite value for a name that is free. -/
  of_declared : ∀ (i : Nat) (name : String) (value : Float),
    sheet.outcomes[i]? = some (.declared name value) →
    value.isFinite = true ∧ Declaration.IsName name ∧ voc.isReserved name = false

/-- A current sheet says what its lines come to. -/
theorem Current.computes {sheet : Sheet} (h : Current voc sheet)
    (hlines : sheet.rows.map Row.line = lines) : Computes voc lines sheet := by
  have hlength : sheet.outcomes.length = lines.length := by
    rw [← hlines, outcomes, List.length_map, List.length_map]
  refine ⟨hlength, fun i line hi ↦ ⟨sheet.bindings.scope i, fun name value ↦ ?_,
    h.getElem?_outcomes hlines hi⟩, fun _ _ _ ↦ h.at?_eq_some_iff, ?_⟩
  · rw [Bindings.scope, Bindings.lookup?_eq_some_iff]
    simp only [IsDeclaredAbove, ne_eq, h.at?_eq_some_iff]
  · intro i name value hdeclared
    obtain ⟨hi, -⟩ := List.getElem?_eq_some_iff.mp hdeclared
    have hline := h.getElem?_outcomes hlines (List.getElem?_eq_getElem (hlength ▸ hi))
    obtain ⟨hname, hfree, hfinite⟩ :=
      Outcome.of_ofLine_eq_declared (Option.some.inj (hline.symm.trans hdeclared))
    exact ⟨hfinite, hname, hfree⟩

/-- After any history, a pass leaves a sheet that says what the lines of the pass come to. So a line
that failed, or is blank or a comment, binds nothing and hides no binding above it. -/
theorem computes_evaluate_after : Computes voc lines ((after voc calls).evaluate lines) :=
  let ⟨hcurrent, hlines⟩ := (Current.after voc calls).evaluate lines
  hcurrent.computes voc lines hlines

end Sheet

end Reckoner
