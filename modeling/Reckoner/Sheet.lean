import Reckoner.Bindings
import Reckoner.Outcome

/-!
# Sheets

A sheet remembers the lines it has computed and what they came to. A pass over new lines computes
only those that may have changed: a line that differs from the line in its place before, and every
line below one that declares a variable now or did so before.
-/

namespace Reckoner

/-- A line and its outcome. -/
structure Row where
  line : Line
  outcome : Outcome

/-- The lines of a sheet with their outcomes, and the variables that they bind. -/
structure Sheet where
  vocabulary : Vocabulary
  bindings : Bindings
  rows : List Row

/-- What a pass over some lines gives. -/
structure Pass where
  rows : List Row
  bindings : Bindings
  evaluated : Nat
  skipped : Nat

namespace Bindings

/-- The bindings after a line came to an outcome: a declared variable, or nothing. -/
def record (bindings : Bindings) (line : Nat) : Outcome → Bindings
  | .declared name value => bindings.bind line name value
  | _ => bindings.clear line

end Bindings

namespace Pass

/-- A pass that kept a row in front of the rows it has. -/
def keep (row : Row) (pass : Pass) : Pass :=
  { pass with rows := row :: pass.rows, skipped := pass.skipped + 1 }

/-- A pass that computed a row in front of the rows it has. -/
def compute (row : Row) (pass : Pass) : Pass :=
  { pass with rows := row :: pass.rows, evaluated := pass.evaluated + 1 }

/-- Pass over the lines from an index on, whose rows before were `old`. With `refresh` no row is
kept, since a line above has changed what variables there are. -/
def run (voc : Vocabulary) (index : Nat) (refresh : Bool) (bindings : Bindings)
    (old : List Row) : List Line → Pass
  | [] => ⟨[], bindings, 0, 0⟩
  | line :: rest =>
    match old.head?.filter fun row ↦ row.line == line && !refresh with
    | some row => (run voc (index + 1) refresh bindings old.tail rest).keep row
    | none =>
      let outcome := Outcome.ofLine voc (bindings.scope index) line
      let refresh := refresh || (bindings.at? index).isSome || LineKind.of line == .declaration
      (run voc (index + 1) refresh (bindings.record index outcome) old.tail rest).compute
        ⟨line, outcome⟩

end Pass

namespace Sheet

/-- A sheet without lines. -/
def new (vocabulary : Vocabulary) : Sheet := ⟨vocabulary, .empty, []⟩

/-- The sheet with all its lines and bindings forgotten. -/
def reset (sheet : Sheet) : Sheet :=
  { sheet with bindings := sheet.bindings.truncate 0, rows := [] }

/-- The pass over the lines that a sheet is to have. -/
def pass (sheet : Sheet) (lines : List Line) : Pass :=
  Pass.run sheet.vocabulary 0 false sheet.bindings sheet.rows lines

/-- The sheet with new lines. -/
def evaluate (sheet : Sheet) (lines : List Line) : Sheet :=
  let pass := sheet.pass lines
  { sheet with rows := pass.rows, bindings := pass.bindings.truncate lines.length }

/-- What the lines came to. -/
def outcomes (sheet : Sheet) : List Outcome := sheet.rows.map Row.outcome

/-- The number of lines that have a fault. -/
def faultCount (sheet : Sheet) : Nat := sheet.outcomes.countP Outcome.isFault

/-- The entry of a report for one line, if the line shows anything. -/
def reportEntry (entry : Outcome × Nat) : String :=
  match entry.1.display? with
  | none => ""
  | some text => Nat.repr (entry.2 + 1) ++ ": " ++ text ++ "\n"

/-- What the lines show, with their numbers. -/
def report (sheet : Sheet) : String := String.join (sheet.outcomes.zipIdx.map reportEntry)

end Sheet

/-- The report on a text that is read as a stream of lines. -/
def reportOf (vocabulary : Vocabulary) (text : List Char) : String :=
  ((Sheet.new vocabulary).evaluate (streamLines text)).report

end Reckoner
