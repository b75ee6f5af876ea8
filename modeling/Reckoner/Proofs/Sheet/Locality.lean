import Reckoner.Proofs.Sheet.History

/-!
# What stands above a line

A line is computed from what the lines above it bind. So what the first lines of a document come to
does not depend on the lines below them, and a document that grows at its end keeps its outcomes and
has one more: what the new line comes to in the scope below the lines that were there.
-/

namespace Reckoner

/-- If rows stand, so do the first of them. -/
theorem Standing.of_append {voc : Vocabulary} {bindings : Bindings} {index : Nat}
    {rows rows' : List Row} (h : Standing voc bindings index (rows ++ rows')) :
    Standing voc bindings index rows := by
  induction rows generalizing index with
  | nil => exact .nil index
  | cons row rows ih =>
    cases h with
    | cons hout hat hrest => exact .cons hout hat (ih hrest)

namespace Sheet

variable {voc : Vocabulary} {sheet : Sheet}

/-- What a line directly below some lines sees. -/
def scopeBelow (voc : Vocabulary) (lines : List Line) : Scope :=
  ((new voc).evaluate lines).bindings.scope lines.length

namespace Current

/-- What the first lines of a sheet come to, and what they bind, is what they come to and bind
without the lines below them. -/
theorem above {lines below : List Line} (h : Current voc sheet)
    (hlines : sheet.rows.map Row.line = lines ++ below) :
    sheet.outcomes.take lines.length = ((Sheet.new voc).evaluate lines).outcomes ∧
      ∀ i < lines.length, sheet.bindings.at? i =
        ((Sheet.new voc).evaluate lines).bindings.at? i := by
  obtain ⟨rows, rows', hrows, hfirst, -⟩ := List.map_eq_append_iff.mp hlines
  obtain ⟨hnew, hnewLines⟩ := (Current.new voc).evaluate lines
  have hstanding : Standing voc sheet.bindings 0 rows :=
    Standing.of_append (hrows ▸ h.standing)
  obtain ⟨houtcomes, hslots⟩ := hstanding.unique hnew.standing (hfirst.trans hnewLines.symm)
    fun i hi ↦ absurd hi (Nat.not_lt_zero i)
  have hlength : rows.length = lines.length := by rw [← hfirst, List.length_map]
  refine ⟨?_, fun i hi ↦ hslots i (by rwa [Nat.zero_add, hlength])⟩
  rw [outcomes, hrows, List.map_append, ← hlength,
    List.take_left' (List.length_map Row.outcome), houtcomes, outcomes]

/-- A line of a sheet sees what a line directly below the lines above it sees. -/
theorem scope_eq {lines : List Line} (h : Current voc sheet)
    (hlines : sheet.rows.map Row.line = lines) {i : Nat} (hi : i ≤ lines.length) :
    sheet.bindings.scope i = scopeBelow voc (lines.take i) := by
  have hlength : (lines.take i).length = i := List.length_take_of_le hi
  have habove := (h.above (hlines.trans (List.take_append_drop i lines).symm)).2
  rw [hlength] at habove
  rw [scopeBelow, hlength]
  exact Bindings.scope_congr habove

/-- The outcome of a line of a sheet is what the line comes to below the lines above it. -/
theorem getElem?_outcomes_eq {lines : List Line} (h : Current voc sheet)
    (hlines : sheet.rows.map Row.line = lines) {i : Nat} {line : Line}
    (hi : lines[i]? = some line) :
    sheet.outcomes[i]? = some (Outcome.ofLine voc (scopeBelow voc (lines.take i)) line) := by
  obtain ⟨hlt, -⟩ := List.getElem?_eq_some_iff.mp hi
  rw [h.getElem?_outcomes hlines hi, h.scope_eq hlines (Nat.le_of_lt hlt)]

/-- A line below the lines of a sheet sees what the outcomes of the sheet declare last. -/
theorem lookup?_scope_eq_some_iff (h : Current voc sheet) {i : Nat} {name : String}
    {value : Float} :
    (sheet.bindings.scope i).lookup? name = some value ↔
      IsDeclaredAbove sheet.outcomes i name value := by
  rw [Bindings.scope, Bindings.lookup?_eq_some_iff]
  simp only [IsDeclaredAbove, ne_eq, h.at?_eq_some_iff]

/-- A name has the same value, or none, on lines of two sheets exactly if the outcomes above them
declare the same last. -/
theorem lookup?_scope_eq_iff {sheet' : Sheet} (h : Current voc sheet) (h' : Current voc sheet')
    {i i' : Nat} {name : String} :
    (sheet.bindings.scope i).lookup? name = (sheet'.bindings.scope i').lookup? name ↔
      ∀ value, IsDeclaredAbove sheet.outcomes i name value ↔
        IsDeclaredAbove sheet'.outcomes i' name value := by
  simp only [← h.lookup?_scope_eq_some_iff, ← h'.lookup?_scope_eq_some_iff]
  exact ⟨fun heq value ↦ by rw [heq], fun hiff ↦ Option.ext hiff⟩

end Current

variable (voc) (lines : List Line) (line : Line)

/-- One more line adds its outcome to those that there were. -/
theorem outcomes_concat :
    ((new voc).evaluate (lines ++ [line])).outcomes =
      ((new voc).evaluate lines).outcomes ++
        [Outcome.ofLine voc (scopeBelow voc lines) line] := by
  obtain ⟨hcurrent, hlines⟩ := (Current.new voc).evaluate (lines ++ [line])
  have hlength : ((new voc).evaluate (lines ++ [line])).outcomes.length = lines.length + 1 := by
    rw [outcomes, List.length_map, ← List.length_map Row.line, hlines, List.length_append,
      List.length_singleton]
  have hline : (lines ++ [line])[lines.length]? = some line := by simp
  have hlast := hcurrent.getElem?_outcomes_eq hlines hline
  rw [List.take_left] at hlast
  calc ((new voc).evaluate (lines ++ [line])).outcomes
      = ((new voc).evaluate (lines ++ [line])).outcomes.take (lines.length + 1) :=
        (List.take_of_length_le (Nat.le_of_eq hlength)).symm
    _ = ((new voc).evaluate (lines ++ [line])).outcomes.take lines.length ++
          [Outcome.ofLine voc (scopeBelow voc lines) line] := by
        rw [List.take_add_one, hlast, Option.toList_some]
    _ = _ := by rw [(hcurrent.above hlines).1]

/-- Below one more line a name has the value that the line declares for it, and otherwise the one
that it had. -/
theorem lookup?_scopeBelow_concat (name : String) :
    (scopeBelow voc (lines ++ [line])).lookup? name =
      (((Outcome.ofLine voc (scopeBelow voc lines) line).binding?.filter
        fun binding ↦ binding.name = name).map Binding.value).or
          ((scopeBelow voc lines).lookup? name) := by
  obtain ⟨hcurrent, hlines⟩ := (Current.new voc).evaluate (lines ++ [line])
  have hline : (lines ++ [line])[lines.length]? = some line := by simp
  have hlast := hcurrent.getElem?_outcomes_eq hlines hline
  have hscope := hcurrent.scope_eq (i := lines.length) hlines (by simp)
  rw [List.take_left] at hlast hscope
  rw [← hscope, scopeBelow, List.length_append, List.length_singleton]
  change Bindings.lookup? _ (lines.length + 1) name = Option.or _ (Bindings.lookup? _ _ name)
  rw [Bindings.lookup?_succ, hcurrent.at?_eq, hlast, Option.bind_some, hscope]

end Sheet

end Reckoner
