import Reckoner.Calculator
import Reckoner.Outcome

/-!
# Ledgers

A sheet in the form in which it is stored: a calculator, which holds the bindings, the lines of the
last pass, and their outcomes. A pass goes over its lines by their indices. A line that may have
changed loses its binding before it is computed, and a declaration binds its variable while it is
computed. The line and its outcome take the places of the old ones, or are added behind the last
line. When all lines are done, what the last pass had below them is dropped.
-/

namespace Reckoner

namespace Calculator

/-- The outcome of a declaration, which binds its variable if it has a value. -/
def declare (calculator : Calculator) (line : Line) : Calculator × Outcome :=
  match Declaration.parse calculator.vocabulary.isReserved line with
  | .error e => (calculator, .fault e.cause.message e.span)
  | .ok d =>
    match calculator.evaluate d.expression with
    | .ok value => (calculator.bind d.name value, .declared d.name value)
    | .error e => (calculator, .fault e.cause.message (e.span.shift d.offset))

/-- The outcome of a line of some form. -/
def compute (calculator : Calculator) (line : Line) : LineKind → Calculator × Outcome
  | .blank => (calculator, .blank)
  | .comment => (calculator, .comment)
  | .expression => (calculator, .ofResult .value 0 (calculator.evaluate line))
  | .declaration => calculator.declare line

end Calculator

/-- A calculator with the lines of the last pass and their outcomes. -/
structure Ledger where
  calculator : Calculator
  previous : List Line
  outcomes : List Outcome

namespace Ledger

/-- A ledger without lines. -/
def new (vocabulary : Vocabulary) : Ledger := ⟨.new vocabulary, [], []⟩

/-- The ledger with all its lines and bindings forgotten. -/
def reset (ledger : Ledger) : Ledger := ⟨ledger.calculator.truncate 0, [], []⟩

/-- The ledger with its first lines only. -/
def truncate (ledger : Ledger) (count : Nat) : Ledger :=
  ⟨ledger.calculator.truncate count, ledger.previous.take count, ledger.outcomes.take count⟩

/-- Put a line and its outcome in their places, or behind all others. That fails if the line has a
place and its outcome has none. -/
def store? (ledger : Ledger) (index : Nat) (line : Line) (outcome : Outcome) : Option Ledger :=
  if index < ledger.previous.length then
    if index < ledger.outcomes.length then
      some { ledger with
        previous := ledger.previous.set index line, outcomes := ledger.outcomes.set index outcome }
    else none
  else some { ledger with
    previous := ledger.previous ++ [line], outcomes := ledger.outcomes ++ [outcome] }

/-- What a pass has come to so far. -/
structure Sweep where
  ledger : Ledger
  /-- Whether the variables that lines below see may have changed. -/
  refresh : Bool
  evaluated : Nat
  skipped : Nat

namespace Sweep

/-- Go over one line. -/
def step? (sweep : Sweep) (index : Nat) (line : Line) : Option Sweep :=
  if sweep.ledger.previous[index]? = some line ∧ sweep.refresh = false then
    some { sweep with skipped := sweep.skipped + 1 }
  else do
    let calculator := sweep.ledger.calculator.goTo index
    let hadBinding := (calculator.bindings.at? index).isSome
    let kind := LineKind.of line
    let (calculator, outcome) := calculator.clear.compute line kind
    let ledger ← { sweep.ledger with calculator }.store? index line outcome
    return { sweep with
      ledger, refresh := sweep.refresh || hadBinding || kind == .declaration,
      evaluated := sweep.evaluated + 1 }

/-- Go over the lines from an index on. -/
def run? : Nat → List Line → Sweep → Option Sweep
  | _, [], sweep => some sweep
  | index, line :: rest, sweep => do
    let sweep ← sweep.step? index line
    run? (index + 1) rest sweep

end Sweep

/-- A pass over the lines that a ledger is to have. -/
def evaluate? (ledger : Ledger) (lines : List Line) : Option Sweep := do
  let sweep ← Sweep.run? 0 lines ⟨ledger, false, 0, 0⟩
  return { sweep with ledger := sweep.ledger.truncate lines.length }

end Ledger

end Reckoner
