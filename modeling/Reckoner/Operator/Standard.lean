import Reckoner.Operator.Rule

/-!
# The standard operators

| symbol | place | order |
|---|---|---|
| `+` | between, joins a value and a negation | 0 |
| `*` `/` `mod` | between, `*` joins all other neighbours | 1 |
| `^` | between, right to left | 3 |
| `-` | before, the negation | 2 |
| `sin`, `sqrt`, `ln` and their like | before | 2 |
| `%` `degree` | after | 1 |
| `!` | after | 4 |

No operator subtracts: `a - b` is read as the sum of `a` and the negated `b`.
-/

namespace Reckoner.Standard

/-- A left-to-right operator that joins nothing on its own. -/
def between (symbol : String) (order : Nat) (rule : Float → Float → Computation) :
    BinaryOperator :=
  ⟨symbol, order, .leftToRight, .plain, rule⟩

/-- An operator before its operand. -/
def before (symbol : String) (order : Nat) (rule : Float → Computation) : UnaryOperator :=
  ⟨symbol, order, .before, false, rule⟩

/-- An operator after its operand. -/
def after (symbol : String) (order : Nat) (rule : Float → Computation) : UnaryOperator :=
  ⟨symbol, order, .after, false, rule⟩

/-- The sum. -/
def addition : BinaryOperator :=
  ⟨"+", 0, .leftToRight, .addition, Rule.total₂ fun a b ↦ a + b⟩

/-- The product. -/
def multiplication : BinaryOperator :=
  ⟨"*", 1, .leftToRight, .multiplication, Rule.total₂ fun a b ↦ a * b⟩

/-- The quotient. -/
def division : BinaryOperator := between "/" 1 Rule.divide

/-- The remainder. -/
def modulo : BinaryOperator := between "mod" 1 Rule.modulo

/-- The power, of which `2^3^2` takes the one on the right first. -/
def power : BinaryOperator := ⟨"^", 3, .rightToLeft, .plain, Rule.total₂ Float.pow⟩

/-- The negation. -/
def negation : UnaryOperator := ⟨"-", 2, .before, true, Rule.total fun a ↦ -a⟩

/-- The factorial. -/
def factorial : UnaryOperator := after "!" 4 Rule.factorial

/-- A hundredth of the operand. -/
def percent : UnaryOperator := after "%" 1 Rule.percent

/-- An angle in degrees. -/
def degree : UnaryOperator := after "degree" 1 Rule.degree

/-- The functions, which are written as words before their argument. -/
def functions : List UnaryOperator :=
  [("sin", Float.sin), ("cos", Float.cos), ("tan", Float.tan), ("asin", Float.asin),
    ("acos", Float.acos), ("atan", Float.atan), ("sinh", Float.sinh), ("cosh", Float.cosh),
    ("tanh", Float.tanh), ("sqrt", Float.sqrt), ("cbrt", Float.cbrt), ("ln", Float.log),
    ("log", Float.log10), ("abs", Float.abs)].map
    fun entry ↦ before entry.1 2 (Rule.total entry.2)

/-- The operators with two operands. -/
def binary : List BinaryOperator := [addition, multiplication, division, modulo, power]

/-- The operators with one operand. -/
def unary : List UnaryOperator := [negation, factorial, percent, degree] ++ functions

/-- The words that belong to the form of a sheet. -/
def keywords : List String := ["dim", "Dim"]

end Reckoner.Standard
