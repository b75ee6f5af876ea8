import Reckoner.View.Highlight

/-!
# The page of a sheet

The lines of a sheet with their numbers in one frame, and what they came to in another beside it.
The page shows as many lines as fit, and moves just so far that the line of the cursor is shown.
-/

namespace Reckoner

namespace Page

/-- The columns in front of a line: four for its number and one that is empty. -/
def gutterWidth : Nat := 5

/-- The first line to show, given the one shown before, so that a row is one of the lines shown. -/
def follow (offset row height : Nat) : Nat :=
  if row < offset then row
  else if 0 < height ∧ offset + height ≤ row then row + 1 - height
  else offset

/-- The number of lines shown on a page of a height. -/
def visibleRows (height : Nat) : Nat := max (height - 2) 1

/-- The number of a line in the columns in front of it. -/
def gutter (index : Nat) : List Char :=
  let number := (Nat.repr (index + 1)).toList
  List.replicate (gutterWidth - 1 - number.length) ' ' ++ number ++ [' ']

/-- The number of a line in its style. -/
def gutterText (isCurrent : Bool) (index : Nat) : StyledText :=
  ⟨gutter index,
    if isCurrent then .inBold (.inColour Theme.secondary) else .inColour Theme.comment⟩

/-- A line with its number. The line of the cursor has a background. -/
def lineRow (isCurrent : Bool) (index : Nat) (text : Line) (outcome : Option Outcome) :
    List StyledText :=
  let pieces := Highlight.line text outcome
  gutterText isCurrent index ::
    if isCurrent then
      pieces.map fun piece ↦ { piece with style := piece.style.onColour Theme.currentLine }
    else pieces

/-- A page: its picture, and the column and row of the cursor on it. -/
structure View where
  picture : Picture
  cursor : Nat × Nat
  /-- The first line shown. -/
  offset : Nat

/-- The page of some lines and what they came to, with the cursor in a row and a column, drawn by a
renderer on a screen, into an area for the lines and one for what they came to. -/
def drawWith (renderer : Renderer) (screen : Picture) (sheet results : Area) (offset : Nat)
    (lines : List Line) (outcomes : List Outcome) (row column : Nat) : View :=
  let visible := visibleRows sheet.height
  let offset := follow offset row visible
  let shown := (lines.zipIdx.drop offset).take visible
  let texts := shown.map fun (text, index) ↦
    cellsOf (lineRow (index == row) index text outcomes[index]?)
  let shownResults := shown.map fun (_, index) ↦ cellsOf (Highlight.result outcomes[index]?)
  let left := renderer.framed sheet.width sheet.height " Sheet ".toList
    (.inBold (.inColour Theme.focusedBorder)) texts
  let right := renderer.framed results.width results.height " Results ".toList
    (.inColour Theme.border) shownResults
  { picture := renderer.drawn (renderer.drawn screen sheet left) results right
    cursor := (sheet.left + 1 + gutterWidth + column, sheet.top + 1 + (row - offset))
    offset }

/-- The page drawn cell by cell. -/
def draw (screen : Picture) (sheet results : Area) (offset : Nat) (lines : List Line)
    (outcomes : List Outcome) (row column : Nat) : View :=
  drawWith Picture.renderer screen sheet results offset lines outcomes row column

/-- The page with the lines on the left and what they came to beside them. -/
def view (left right height offset : Nat) (lines : List Line) (outcomes : List Outcome)
    (row column : Nat) : View :=
  draw (.blank (left + right) height) ⟨0, 0, left, height⟩ ⟨left, 0, right, height⟩ offset lines
    outcomes row column

end Page

end Reckoner
