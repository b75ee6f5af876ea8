import Reckoner.Bindings
import Reckoner.Expr.OfLine

/-!
# A calculator with lines

A calculator computes one line at a time. It stands on a line, sees the variables that lines above
bind, and can bind a variable to the line it stands on.
-/

namespace Reckoner

/-- A vocabulary, the bindings of all lines, and the line to compute. -/
structure Calculator where
  vocabulary : Vocabulary
  bindings : Bindings
  line : Nat

namespace Calculator

/-- A calculator on the first line, without bindings. -/
def new (vocabulary : Vocabulary) : Calculator := ⟨vocabulary, .empty, 0⟩

/-- Go to a line. -/
def goTo (calculator : Calculator) (line : Nat) : Calculator := { calculator with line }

/-- Bind a variable to the current line, visible from the next line on. -/
def bind (calculator : Calculator) (name : String) (value : Float) : Calculator :=
  { calculator with bindings := calculator.bindings.bind calculator.line name value }

/-- Take away the binding of the current line. -/
def clear (calculator : Calculator) : Calculator :=
  { calculator with bindings := calculator.bindings.clear calculator.line }

/-- Keep the bindings of the first lines only. -/
def truncate (calculator : Calculator) (count : Nat) : Calculator :=
  { calculator with bindings := calculator.bindings.truncate count }

/-- The value of a text as the current line. Blanks at its end do not count. -/
def evaluate (calculator : Calculator) (text : Line) : Except (Located Fault) Float :=
  calculator.vocabulary.calculate (calculator.bindings.scope calculator.line) text.trimEnd

end Calculator

end Reckoner
