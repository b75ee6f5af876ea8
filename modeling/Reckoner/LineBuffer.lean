import Reckoner.Text.Bytes

/-!
# Line buffers

A text with a cursor in the form in which it is stored: the lines, the row of the cursor, and its
column, which counts characters. An operation changes the three one after the other. It fails where
there is no line in the row that it looks at, and where a character is put in or taken out at a
position of bytes at which none begins.

All counts but one stay below the number of lines or of characters and so inside a machine word. The
exception is the row that a move downwards asks for: its sum may be too great for a word. A checked
build fails there, and any other goes on with the rest of the sum.
-/

namespace Reckoner

/-- How many numbers a machine word can hold. -/
def wordCount : Nat := UInt64.size

/-- The sum of two numbers in a machine word. -/
def wordSum? (checked : Bool) (a b : Nat) : Option Nat :=
  if a + b < wordCount then some (a + b)
  else if checked then none
  else some ((a + b) % wordCount)

/-- A text with a cursor, by its lines and the place of the cursor among them. -/
structure LineBuffer where
  lines : List String
  row : Nat
  column : Nat
deriving DecidableEq, Repr

namespace LineBuffer

/-- The empty text, which is one empty line. -/
def empty : LineBuffer := ⟨[""], 0, 0⟩

/-- A text with the cursor at its start. -/
def ofText (text : List Char) : LineBuffer := ⟨(bufferLines text).map String.ofList, 0, 0⟩

/-- The whole text. -/
def text (buffer : LineBuffer) : List Char := joinLines (buffer.lines.map String.toList)

/-- The line of the cursor. -/
def current? (buffer : LineBuffer) : Option String := buffer.lines[buffer.row]?

/-- Put another line in the row of the cursor. -/
def replace (buffer : LineBuffer) (line : String) : LineBuffer :=
  { buffer with lines := buffer.lines.set buffer.row line }

/-! ## Edits -/

/-- Write a character at the cursor. -/
def insertChar? (buffer : LineBuffer) (c : Char) : Option LineBuffer := do
  let line ← buffer.current?
  let line ← insertAt? line (byteAt line buffer.column) c
  return { buffer.replace line with column := buffer.column + 1 }

/-- Cut the line at the cursor, and put what is behind the cut into a row of its own. -/
def insertNewline? (buffer : LineBuffer) : Option LineBuffer := do
  let line ← buffer.current?
  let (front, rest) ← cut? line (byteAt line buffer.column)
  let lines := (buffer.replace front).lines
  let row := buffer.row + 1
  if row ≤ lines.length then return ⟨lines.take row ++ rest :: lines.drop row, row, 0⟩ else none

/-- Delete the character before the cursor, or join the line to the one above it if the cursor is in
column zero, and say whether anything changed. -/
def backspace? (buffer : LineBuffer) : Option (LineBuffer × Bool) := do
  if 0 < buffer.column then
    let column := buffer.column - 1
    let line ← buffer.current?
    let line ← removeAt? line (byteAt line column)
    return ({ buffer.replace line with column }, true)
  else if buffer.row = 0 then return (buffer, false)
  else
    let line ← buffer.current?
    let joined : LineBuffer := ⟨buffer.lines.eraseIdx buffer.row, buffer.row - 1, 0⟩
    let previous ← joined.current?
    return ({ joined.replace (previous ++ line) with column := previous.length }, true)

/-- Delete the character under the cursor, or join the next line to its own if the cursor is at the
end of a line, and say whether anything changed. -/
def delete? (buffer : LineBuffer) : Option (LineBuffer × Bool) := do
  let line ← buffer.current?
  if buffer.column < line.length then
    let line ← removeAt? line (byteAt line buffer.column)
    return (buffer.replace line, true)
  else if buffer.lines.length ≤ buffer.row + 1 then return (buffer, false)
  else
    let next ← buffer.lines[buffer.row + 1]?
    let joined : LineBuffer := { buffer with lines := buffer.lines.eraseIdx (buffer.row + 1) }
    return (joined.replace (line ++ next), true)

/-! ## Moves -/

/-- Move one character back, from the start of a line to the end of the line above. -/
def left? (buffer : LineBuffer) : Option LineBuffer := do
  if 0 < buffer.column then return { buffer with column := buffer.column - 1 }
  else if 0 < buffer.row then
    let above : LineBuffer := { buffer with row := buffer.row - 1 }
    let line ← above.current?
    return { above with column := line.length }
  else return buffer

/-- Move one character on, from the end of a line to the start of the line below. -/
def right? (buffer : LineBuffer) : Option LineBuffer := do
  let line ← buffer.current?
  if buffer.column < line.length then return { buffer with column := buffer.column + 1 }
  else if buffer.row + 1 < buffer.lines.length then
    return { buffer with row := buffer.row + 1, column := 0 }
  else return buffer

/-- Go back to the end of the line if the column is behind it. -/
def clampColumn? (buffer : LineBuffer) : Option LineBuffer := do
  let line ← buffer.current?
  return { buffer with column := min buffer.column line.length }

/-- Move so many lines up, at most to the first, and keep the column if the line has it. -/
def up? (buffer : LineBuffer) (count : Nat) : Option LineBuffer :=
  clampColumn? { buffer with row := buffer.row - count }

/-- Move so many lines down, at most to the last, and keep the column if the line has it. -/
def down? (checked : Bool) (buffer : LineBuffer) (count : Nat) : Option LineBuffer := do
  let row ← wordSum? checked buffer.row count
  clampColumn? { buffer with row := min row (buffer.lines.length - 1) }

/-- Move to the start of the line. -/
def home (buffer : LineBuffer) : LineBuffer := { buffer with column := 0 }

/-- Move to the end of the line. -/
def toLineEnd? (buffer : LineBuffer) : Option LineBuffer := do
  let line ← buffer.current?
  return { buffer with column := line.length }

end LineBuffer

end Reckoner
