import Reckoner.Operator.Rule

/-!
# Names and their values

A word on a line can name a constant or a variable. The constants are the same everywhere; which
variables there are is up to the scope of the line.
-/

namespace Reckoner

/-- The constants. -/
def constants : List (String × Float) :=
  [("pi", circleRatio), ("e", logarithmBase), ("tau", 6.283185307179586)]

/-- The value of a constant. -/
def constant? (name : String) : Option Float := constants.lookup name

/-- The variables that a line can see. -/
structure Scope where
  /-- The value of a variable, if there is one of that name. -/
  lookup? : String → Option Float

namespace Scope

/-- The scope without variables. -/
def bare : Scope := ⟨fun _ ↦ none⟩

/-- The value of a name, a constant before a variable. -/
def value? (scope : Scope) (name : String) : Option Float :=
  constant? name <|> scope.lookup? name

end Scope

end Reckoner
