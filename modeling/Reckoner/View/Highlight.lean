import Reckoner.Outcome
import Reckoner.View.Picture

/-!
# Highlighting

The styles in which the characters of a line are shown. Comments are dimmed; in a declaration the
keyword and the name stand out; so do numbers. Where the line has a fault the fault is underlined.
-/

namespace Reckoner

namespace Highlight

/-- The characters of the name that a line declares, if it declares one in the right form. -/
def declaredName? (kind : LineKind) (line : Line) : Option Span :=
  if kind = .declaration then
    (Declaration.parse (fun _ ↦ false) line).toOption.map Declaration.nameSpan
  else none

/-- The style of a character that has no fault. -/
def baseStyle (kind : LineKind) (name : Option Span) (index : Nat) (c : Char) : Style :=
  let number := if c.isDigit || c == '.' then .inColour Theme.number else .inColour Theme.text
  match kind with
  | .comment => .inColour Theme.comment
  | .declaration =>
    if index < Declaration.keywordLength then .inBold (.inColour Theme.keyword)
    else if name.any (·.contains index) then .inColour Theme.declared
    else number
  | .blank | .expression => number

/-- The style of characters with a fault. -/
def faultStyle : Style := .withUnderline (.inColour Theme.fault)

/-- The characters that the fault of a line is about. -/
def faultSpan? : Option Outcome → Option Span
  | some (.fault _ span) => some span
  | _ => none

/-- The style of a character. -/
def charStyle (kind : LineKind) (name fault : Option Span) (index : Nat) (c : Char) : Style :=
  if fault.any (·.contains index) then faultStyle else baseStyle kind name index c

/-- A line in its styles, given what it came to. -/
def line (text : Line) (outcome : Option Outcome) : List StyledText :=
  let kind := LineKind.of text
  let name := declaredName? kind text
  piecesOf (text.zipIdx.map fun (c, index) ↦
    (c, charStyle kind name (faultSpan? outcome) index c))

/-- What is shown beside a line. -/
def result : Option Outcome → List StyledText
  | none => []
  | some outcome =>
    match outcome.display? with
    | none => []
    | some text =>
      let colour := match outcome with
        | .fault _ _ => Theme.fault
        | .declared _ _ => Theme.declared
        | _ => Theme.success
      [⟨text.toList, .inColour colour⟩]

end Highlight

end Reckoner
