import Reckoner.Operator.Standard
import Reckoner.Vocabulary.Basic

/-!
# The standard vocabulary
-/

namespace Reckoner

/-- The definitions of the standard operators and keywords. -/
def Definitions.standard : Definitions := ⟨Standard.binary, Standard.unary, Standard.keywords⟩

/-- The standard definitions have no fault. -/
theorem Definitions.fault?_standard : Definitions.standard.fault? = none := by decide +kernel

/-- The vocabulary of the standard operators and keywords. -/
def Vocabulary.standard : Vocabulary := ⟨Definitions.standard, Definitions.fault?_standard⟩

end Reckoner
