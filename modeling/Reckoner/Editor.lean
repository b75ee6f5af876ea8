import Reckoner.Text.Line

/-!
# Editors

A text with a cursor. The text is cut at the cursor: the lines above it, the characters before and
after it on its own line, and the lines below. What lies before the cursor is kept nearest first,
so each edit and each step of the cursor works at the heads of lists, and the cursor is always
inside the text.
-/

namespace Reckoner

/-- A text with a cursor. -/
structure Editor where
  /-- The lines above that of the cursor, the nearest first. -/
  above : List Line
  /-- The characters before the cursor on its line, the nearest first. -/
  before : List Char
  /-- The characters after the cursor on its line. -/
  after : List Char
  /-- The lines below that of the cursor. -/
  below : List Line
deriving DecidableEq, Repr

namespace Editor

/-- The empty text. -/
def empty : Editor := ⟨[], [], [], []⟩

/-- A text with the cursor at its start. -/
def ofText (text : List Char) : Editor :=
  match bufferLines text with
  | [] => empty
  | line :: below => ⟨[], [], line, below⟩

/-- The line of the cursor. -/
def current (editor : Editor) : Line := editor.before.reverse ++ editor.after

/-- All lines. -/
def lines (editor : Editor) : List Line :=
  editor.above.reverse ++ editor.current :: editor.below

/-- The whole text. -/
def text (editor : Editor) : List Char := joinLines editor.lines

/-- The number of lines above the cursor. -/
def row (editor : Editor) : Nat := editor.above.length

/-- The number of characters before the cursor on its line. -/
def column (editor : Editor) : Nat := editor.before.length

/-- The lines of a new editor are those of its text. -/
theorem lines_ofText (text : List Char) : (ofText text).lines = bufferLines text := by
  rw [ofText]
  split
  next h => exact absurd h (bufferLines_ne_nil text)
  next line below h => simp [lines, current, h]

/-- The cursor is on a line. -/
theorem row_lt_length_lines (editor : Editor) : editor.row < editor.lines.length := by
  simp [row, lines]

/-- The line of the cursor is the line in its row. -/
theorem getElem?_row_lines (editor : Editor) :
    editor.lines[editor.row]? = some editor.current := by
  simp [row, lines]

/-- The cursor is not beyond the end of its line. -/
theorem column_le_length_current (editor : Editor) :
    editor.column ≤ editor.current.length := by
  simp [column, current]

/-! ## Edits -/

/-- Write a character at the cursor. -/
def insertChar (editor : Editor) (c : Char) : Editor :=
  { editor with before := c :: editor.before }

/-- Cut the line at the cursor. -/
def insertNewline (editor : Editor) : Editor :=
  { editor with above := editor.before.reverse :: editor.above, before := [] }

/-- Delete the character before the cursor, or the line break if the cursor starts its line. There
is nothing to delete at the start of the text. -/
def backspace? (editor : Editor) : Option Editor :=
  match editor.before, editor.above with
  | _ :: before, _ => some { editor with before }
  | [], line :: above => some { editor with above, before := line.reverse }
  | [], [] => none

/-- Delete the character after the cursor, or the line break if the cursor ends its line. There is
nothing to delete at the end of the text. -/
def delete? (editor : Editor) : Option Editor :=
  match editor.after, editor.below with
  | _ :: after, _ => some { editor with after }
  | [], line :: below => some { editor with after := line, below }
  | [], [] => none

/-! ## Moves -/

/-- Move one character back, from the start of a line to the end of the line above. -/
def left (editor : Editor) : Editor :=
  match editor.before, editor.above with
  | c :: before, _ => { editor with before, after := c :: editor.after }
  | [], line :: above => ⟨above, line.reverse, [], editor.after :: editor.below⟩
  | [], [] => editor

/-- Move one character on, from the end of a line to the start of the line below. -/
def right (editor : Editor) : Editor :=
  match editor.after, editor.below with
  | c :: after, _ => { editor with before := c :: editor.before, after }
  | [], line :: below => ⟨editor.before.reverse :: editor.above, [], line, below⟩
  | [], [] => editor

/-- Move to the start of the line. -/
def home (editor : Editor) : Editor := { editor with before := [], after := editor.current }

/-- Move to the end of the line. -/
def toLineEnd (editor : Editor) : Editor :=
  { editor with before := editor.current.reverse, after := [] }

/-- A line in its place: the lines above it, nearest first, the line, and the lines below it. -/
abbrev Place := List Line × Line × List Line

/-- So many lines up, or the first line. -/
def climb : Nat → Place → Place
  | n + 1, (line :: above, current, below) => climb n (above, line, current :: below)
  | _, place => place

/-- So many lines down, or the last line. -/
def descend : Nat → Place → Place
  | n + 1, (above, current, line :: below) => descend n (current :: above, line, below)
  | _, place => place

/-- The place of the line of the cursor. -/
def place (editor : Editor) : Place := (editor.above, editor.current, editor.below)

/-- The cursor in a column of a line, or at the end of the line if it is shorter. -/
def atColumn (column : Nat) : Place → Editor
  | (above, line, below) => ⟨above, (line.take column).reverse, line.drop column, below⟩

/-- Move so many lines up and keep the column if the line has it. -/
def up (editor : Editor) (count : Nat) : Editor :=
  atColumn editor.column (climb count editor.place)

/-- Move so many lines down and keep the column if the line has it. -/
def down (editor : Editor) (count : Nat) : Editor :=
  atColumn editor.column (descend count editor.place)

end Editor

end Reckoner
