import Reckoner.Ledger
import Reckoner.Proofs.Bindings
import Reckoner.Proofs.Sheet.History

/-!
# Ledgers keep sheets

A sheet has a row for each of its lines and derives the binding of a line from its outcome. A ledger
has the lines, the outcomes and the slots in three places and changes each of them on its own. Here
a pass over a ledger is shown to do what the pass over the sheet does: in front of the line it is at
the three hold the new rows, from that line on the old ones, and so a line that is put in its place
never goes elsewhere. Nothing fails, and after the last line dropping the rest leaves the new rows.
-/

namespace Reckoner

namespace Bindings

variable (bindings : Bindings) (line : Nat)

/-- A binding takes the place of the one that was there, whether or not that was taken away. -/
theorem bind_clear (name : String) (value : Float) :
    (bindings.clear line).bind line name value = bindings.bind line name value := by
  rw [bind, bind]
  split
  · simp [clear]
  · have hslots : (reaching line (bindings.slots.set line none)).set line (some ⟨name, value⟩) =
        (reaching line bindings.slots).set line (some ⟨name, value⟩) := by
      rw [reaching, reaching, List.length_set]
      by_cases hline : line < bindings.slots.length
      · simp [hline]
      · rw [List.set_eq_of_length_le (Nat.le_of_not_lt hline)]
    exact congrArg Bindings.mk hslots

/-- A line does not see its own binding. -/
theorem scope_clear : (bindings.clear line).scope line = bindings.scope line :=
  scope_congr fun i hi ↦ by rw [at?_clear, if_neg (Nat.ne_of_lt hi)]

end Bindings

namespace Calculator

/-- A line whose binding was taken away comes to its outcome in the scope that it sees, and binds
what the outcome says. -/
theorem compute_clear (calculator : Calculator) (line : Line) :
    calculator.clear.compute line (LineKind.of line) =
      ({ calculator with
          bindings := calculator.bindings.record calculator.line (Outcome.ofLine
            calculator.vocabulary (calculator.bindings.scope calculator.line) line) },
        Outcome.ofLine calculator.vocabulary (calculator.bindings.scope calculator.line) line) := by
  have hevaluate (text : Line) : calculator.clear.evaluate text =
      calculator.vocabulary.calculate (calculator.bindings.scope calculator.line) text.trimEnd := by
    rw [evaluate, clear, Bindings.scope_clear]
  rw [Outcome.ofLine]
  cases LineKind.of line with
  | blank => rfl
  | comment => rfl
  | expression =>
    simp only [compute, hevaluate]
    cases calculator.vocabulary.calculate (calculator.bindings.scope calculator.line)
        line.trimEnd <;> rfl
  | declaration =>
    have hreserved : calculator.clear.vocabulary.isReserved = calculator.vocabulary.isReserved :=
      rfl
    simp only [compute, declare, Outcome.ofDeclaration, hreserved]
    cases Declaration.parse calculator.vocabulary.isReserved line with
    | error fault => rfl
    | ok declaration =>
      simp only [hevaluate]
      cases calculator.vocabulary.calculate (calculator.bindings.scope calculator.line)
          declaration.expression.trimEnd with
      | error fault => rfl
      | ok value => simp only [bind, clear, Bindings.bind_clear, Outcome.ofResult, Bindings.record]

end Calculator

/-! ## A pass -/

namespace Ledger

variable {voc : Vocabulary} {bindings : Bindings} {done old : List Row} {line : Line}
  {ledger : Ledger} {refresh : Bool}

/-- A ledger keeps rows and bindings. -/
structure Keeps (ledger : Ledger) (voc : Vocabulary) (bindings : Bindings) (rows : List Row) :
    Prop where
  vocabulary_eq : ledger.calculator.vocabulary = voc
  bindings_eq : ledger.calculator.bindings = bindings
  previous_eq : ledger.previous = rows.map Row.line
  outcomes_eq : ledger.outcomes = rows.map Row.outcome

/-- A row at an index comes to stand there, whether or not an old row does. -/
theorem Keeps.store? (h : ledger.Keeps voc bindings (done ++ old)) (line : Line)
    (outcome : Outcome) :
    ∃ ledger', ledger.store? done.length line outcome = some ledger' ∧
      ledger'.Keeps voc bindings (done ++ ⟨line, outcome⟩ :: old.tail) := by
  obtain ⟨calculator, previous, outcomes⟩ := ledger
  obtain ⟨hvoc, hbindings, rfl, rfl⟩ := h
  cases old with
  | nil => exact ⟨_, if_neg (by simp), hvoc, hbindings, by simp, by simp⟩
  | cons row old =>
    exact ⟨_, (if_pos (by simp)).trans (if_pos (by simp)), hvoc, hbindings, by simp, by simp⟩

/-- A line is skipped by the ledger exactly if its row is kept by the sheet. -/
theorem Keeps.skips_iff (h : ledger.Keeps voc bindings (done ++ old)) (line : Line)
    (refresh : Bool) :
    ledger.previous[done.length]? = some line ∧ refresh = false ↔
      (old.head?.filter fun row ↦ row.line == line && !refresh).isSome = true := by
  rw [h.previous_eq, List.map_append, List.getElem?_append_right (by simp)]
  cases old <;> simp

/-- A row that is kept is skipped, and nothing changes but the count. -/
theorem Keeps.step?_of_kept (h : ledger.Keeps voc bindings (done ++ old)) {row : Row}
    (hrow : old.head?.filter (fun row ↦ row.line == line && !refresh) = some row)
    (evaluated skipped : Nat) :
    Sweep.step? ⟨ledger, refresh, evaluated, skipped⟩ done.length line =
        some ⟨ledger, refresh, evaluated, skipped + 1⟩ ∧
      ledger.Keeps voc bindings ((done ++ [row]) ++ old.tail) := by
  have hskips := (h.skips_iff line refresh).mpr (by rw [hrow]; rfl)
  have hold : old = row :: old.tail := by
    cases old with
    | nil => cases hrow
    | cons first others =>
      obtain ⟨hfirst, -⟩ := Option.filter_eq_some_iff.mp hrow
      cases hfirst
      rfl
  refine ⟨if_pos hskips, ?_⟩
  rwa [List.append_assoc, List.singleton_append, ← hold]

/-- A line that is computed comes to stand in a row of its own. -/
theorem Keeps.step?_of_computed (h : ledger.Keeps voc bindings (done ++ old))
    (hrow : old.head?.filter (fun row ↦ row.line == line && !refresh) = none)
    (evaluated skipped : Nat) :
    ∃ ledger', Sweep.step? ⟨ledger, refresh, evaluated, skipped⟩ done.length line =
        some ⟨ledger',
          refresh || (bindings.at? done.length).isSome || LineKind.of line == .declaration,
          evaluated + 1, skipped⟩ ∧
      ledger'.Keeps voc
        (bindings.record done.length (Outcome.ofLine voc (bindings.scope done.length) line))
        ((done ++ [⟨line, Outcome.ofLine voc (bindings.scope done.length) line⟩]) ++ old.tail) := by
  have hskips := mt (h.skips_iff line refresh).mp (by rw [hrow]; exact Bool.noConfusion)
  obtain ⟨⟨voc', bindings', place⟩, previous, outcomes⟩ := ledger
  obtain ⟨rfl, rfl, hprevious, houtcomes⟩ := h
  have hcompute := Calculator.compute_clear ⟨voc', bindings', done.length⟩ line
  have hcomputed : Keeps ⟨((Calculator.mk voc' bindings' done.length).clear.compute line
      (LineKind.of line)).1, previous, outcomes⟩ voc' (bindings'.record done.length
        (Outcome.ofLine voc' (bindings'.scope done.length) line)) (done ++ old) := by
    rw [hcompute]
    exact ⟨rfl, rfl, hprevious, houtcomes⟩
  obtain ⟨ledger', hstore, hkeeps⟩ := hcomputed.store? line
    (Outcome.ofLine voc' (bindings'.scope done.length) line)
  refine ⟨ledger', (if_neg hskips).trans ?_, ?_⟩
  · rw [hcompute] at hstore
    dsimp only [Calculator.goTo]
    rw [hcompute]
    dsimp only
    rw [hstore]
    rfl
  · rwa [List.append_assoc]

/-- Going over the lines of a ledger is passing over the rows of the sheet. -/
theorem Keeps.run? (lines : List Line) :
    ∀ {done old : List Row} {bindings : Bindings} {ledger : Ledger},
      ledger.Keeps voc bindings (done ++ old) → ∀ (refresh : Bool) (evaluated skipped : Nat),
      ∃ ledger' refresh', Sweep.run? done.length lines ⟨ledger, refresh, evaluated, skipped⟩ =
          some ⟨ledger', refresh',
            evaluated + (Pass.run voc done.length refresh bindings old lines).evaluated,
            skipped + (Pass.run voc done.length refresh bindings old lines).skipped⟩ ∧
        ledger'.Keeps voc (Pass.run voc done.length refresh bindings old lines).bindings
          (done ++ (Pass.run voc done.length refresh bindings old lines).rows ++
            old.drop lines.length) := by
  induction lines with
  | nil =>
    intro done old bindings ledger h refresh evaluated skipped
    exact ⟨ledger, refresh, rfl, by simpa [Pass.run] using h⟩
  | cons line rest ih =>
    intro done old bindings ledger h refresh evaluated skipped
    have hlength (row : Row) : (done ++ [row]).length = done.length + 1 := List.length_append
    rw [Pass.run, Sweep.run?]
    split
    · rename_i row hrow
      obtain ⟨hstep, hkeeps⟩ := h.step?_of_kept hrow evaluated skipped
      obtain ⟨ledger', refresh', hrun, hkeeps'⟩ := ih hkeeps refresh evaluated (skipped + 1)
      rw [hlength] at hrun hkeeps'
      rw [hstep]
      refine ⟨ledger', refresh', hrun.trans ?_, ?_⟩
      · rw [Pass.keep, Nat.add_right_comm, Nat.add_assoc skipped]
      · simpa [Pass.keep] using hkeeps'
    · rename_i hrow
      obtain ⟨ledger', hstep, hkeeps⟩ := h.step?_of_computed hrow evaluated skipped
      obtain ⟨ledger'', refresh', hrun, hkeeps'⟩ := ih hkeeps _ (evaluated + 1) skipped
      rw [hlength] at hrun hkeeps'
      rw [hstep]
      refine ⟨ledger'', refresh', hrun.trans ?_, ?_⟩
      · rw [Pass.compute, Nat.add_right_comm, Nat.add_assoc evaluated]
      · simpa [Pass.compute] using hkeeps'

/-! ## Histories -/

/-- A pass has a row for each line. -/
theorem length_rows_run (voc : Vocabulary) (lines : List Line) :
    ∀ (index : Nat) (refresh : Bool) (bindings : Bindings) (old : List Row),
      (Pass.run voc index refresh bindings old lines).rows.length = lines.length := by
  induction lines with
  | nil => exact fun _ _ _ _ ↦ rfl
  | cons line rest ih =>
    intro index refresh bindings old
    rw [Pass.run]
    split
    · simp [Pass.keep, ih]
    · simp [Pass.compute, ih]

/-- A ledger keeps the rows and the bindings of a sheet. -/
def KeepsSheet (ledger : Ledger) (sheet : Sheet) : Prop :=
  ledger.Keeps sheet.vocabulary sheet.bindings sheet.rows

variable {sheet : Sheet}

/-- A pass over a ledger does what the pass over the sheet does, and counts the same. -/
theorem KeepsSheet.evaluate? (h : ledger.KeepsSheet sheet) (lines : List Line) :
    ∃ sweep, ledger.evaluate? lines = some sweep ∧
      sweep.ledger.KeepsSheet (sheet.evaluate lines) ∧
      sweep.evaluated = (sheet.pass lines).evaluated ∧
      sweep.skipped = (sheet.pass lines).skipped := by
  have hstart : ledger.Keeps sheet.vocabulary sheet.bindings ([] ++ sheet.rows) := h
  obtain ⟨ledger', refresh, hrun, hkeeps⟩ := hstart.run? lines false 0 0
  rw [List.length_nil, Nat.zero_add, Nat.zero_add] at hrun
  have hrows : (([] ++ (sheet.pass lines).rows) ++ sheet.rows.drop lines.length).take lines.length =
      (sheet.pass lines).rows := List.take_left' (length_rows_run _ lines _ _ _ _)
  refine ⟨⟨ledger'.truncate lines.length, refresh, (sheet.pass lines).evaluated,
    (sheet.pass lines).skipped⟩, ?_, ?_, rfl, rfl⟩
  · rw [Ledger.evaluate?, hrun]
    rfl
  · refine ⟨hkeeps.vocabulary_eq, ?_, ?_, ?_⟩
    · exact congrArg (·.truncate lines.length) hkeeps.bindings_eq
    · rw [truncate, hkeeps.previous_eq, ← List.map_take]
      exact congrArg (List.map Row.line) hrows
    · rw [truncate, hkeeps.outcomes_eq, ← List.map_take]
      exact congrArg (List.map Row.outcome) hrows

theorem KeepsSheet.reset (h : ledger.KeepsSheet sheet) : ledger.reset.KeepsSheet sheet.reset :=
  ⟨h.vocabulary_eq, congrArg (·.truncate 0) h.bindings_eq, rfl, rfl⟩

/-- The ledger after a call. -/
def call? (ledger : Ledger) : Call → Option Ledger
  | .evaluate lines => (ledger.evaluate? lines).map Sweep.ledger
  | .reset => some ledger.reset

/-- A ledger after a history of calls, the first of which found it new. -/
def after? (voc : Vocabulary) (calls : List Call) : Option Ledger :=
  calls.foldlM call? (new voc)

/-- A call to a ledger does not fail, and does what the call to the sheet does. -/
theorem KeepsSheet.call? (h : ledger.KeepsSheet sheet) (call : Call) :
    ∃ ledger', ledger.call? call = some ledger' ∧ ledger'.KeepsSheet (sheet.call call) := by
  cases call with
  | evaluate lines =>
    obtain ⟨sweep, hevaluate, hkeeps, -⟩ := h.evaluate? lines
    exact ⟨sweep.ledger, congrArg (Option.map Sweep.ledger) hevaluate, hkeeps⟩
  | reset => exact ⟨ledger.reset, rfl, h.reset⟩

/-- Calls one after the other do to a ledger what they do to the sheet. -/
theorem KeepsSheet.foldlM_call? (h : ledger.KeepsSheet sheet) (calls : List Call) :
    ∃ ledger', calls.foldlM Ledger.call? ledger = some ledger' ∧
      ledger'.KeepsSheet (calls.foldl Sheet.call sheet) := by
  induction calls generalizing ledger sheet with
  | nil => exact ⟨ledger, rfl, h⟩
  | cons call rest ih =>
    obtain ⟨ledger', hcall, hkeeps⟩ := h.call? call
    rw [List.foldlM_cons, hcall, Option.bind_eq_bind, Option.bind_some]
    exact ih hkeeps

/-- After any history a ledger keeps the sheet that the same calls were made to. -/
theorem keepsSheet_after (voc : Vocabulary) (calls : List Call) :
    ∃ ledger, after? voc calls = some ledger ∧ ledger.KeepsSheet (Sheet.after voc calls) := by
  have hnew : (new voc).KeepsSheet (.new voc) := ⟨rfl, rfl, rfl, rfl⟩
  exact hnew.foldlM_call? calls

end Ledger

end Reckoner
