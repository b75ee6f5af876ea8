import Reckoner.Fault
import Reckoner.Text.Line

/-!
# Declarations

A declaration binds a variable: the keyword `dim` or `Dim`, a space, the name of the variable, a
colon, and an expression. Spaces may stand in front of the name and between it and the colon.
-/

namespace Reckoner

/-- A declaration, taken apart. -/
structure Declaration where
  name : String
  nameSpan : Span
  expression : Line
  /-- The position on the line at which the expression begins. -/
  offset : Nat
deriving DecidableEq, Repr

/-- Why the part of a declaration in front of its expression is not well formed. -/
inductive DeclarationFault where
  | invalidIdentifier
  | missingColon
  | reserved
deriving DecidableEq, Repr

namespace DeclarationFault

/-- The text shown for the fault. -/
def message : DeclarationFault → String
  | invalidIdentifier => "Invalid Identifier"
  | missingColon => "Missing ':'"
  | reserved => "Identifier Reserved"

end DeclarationFault

namespace Declaration

/-- The number of characters of the keyword. -/
def keywordLength : Nat := 3

/-- How a declaration begins. -/
def heads : List Line := ["dim ".toList, "Dim ".toList]

/-- Whether a line is a declaration, well formed or not. -/
def isHeadOf (line : Line) : Bool := heads.any (·.isPrefixOf line)

/-- Whether a character may be part of the name of a variable. -/
def isNameChar (c : Char) : Bool := c.isAlpha || c == '_'

/-- A text without the spaces at its end. -/
def trimSpaces (text : List Char) : List Char := (text.reverse.dropWhile (· = ' ')).reverse

/-- Take a declaration apart, whose name must not be reserved. The keyword and the space after it
are not looked at. -/
def parse (isReserved : String → Bool) (line : Line) :
    Except (Located DeclarationFault) Declaration :=
  let body := line.drop (keywordLength + 1)
  let start := keywordLength + 1 + (body.takeWhile (· = ' ')).length
  let rest := body.dropWhile (· = ' ')
  let head := rest.takeWhile (· ≠ ':')
  match rest.dropWhile (· ≠ ':') with
  | [] => .error ⟨.missingColon, min start line.length, line.length⟩
  | _ :: expression =>
    let name := trimSpaces head
    let offset := start + head.length + 1
    if name.isEmpty || !name.all isNameChar then .error ⟨.invalidIdentifier, start, offset⟩
    else if isReserved (String.ofList name) then .error ⟨.reserved, start, offset⟩
    else .ok ⟨String.ofList name, ⟨start, start + name.length⟩, expression, offset⟩

end Declaration

end Reckoner
