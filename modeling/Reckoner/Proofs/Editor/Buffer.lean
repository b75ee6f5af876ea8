import Mathlib.Algebra.GroupWithZero.Nat
import Reckoner.Editor

/-!
# An editor as a flat text

To whoever types, a text is one sequence of characters in which line breaks count like any other,
and the cursor is a place in it. An editor keeps lines and cuts them at the cursor. Read from the
cursor outwards, the two are the same thing: the characters before the cursor, nearest first, and
those that follow it. Every edit and every step of the cursor works at the heads of these two, and
the moves by lines leave the lines alone.

So each operation does to the flat text what its name says. Which operations there are, and what a
run of them comes to, is said at the end.
-/

namespace Reckoner

/-- A flat text and a place in it. -/
structure Buffer where
  text : List Char
  /-- The number of characters before the place. -/
  offset : Nat
deriving DecidableEq, Repr

namespace Buffer

/-- Write a character at the place and step behind it. -/
def insert (buffer : Buffer) (c : Char) : Buffer :=
  ⟨buffer.text.take buffer.offset ++ c :: buffer.text.drop buffer.offset, buffer.offset + 1⟩

/-- Delete the character before the place. At the start there is none. -/
def backspace? (buffer : Buffer) : Option Buffer :=
  if 0 < buffer.offset then
    some ⟨buffer.text.eraseIdx (buffer.offset - 1), buffer.offset - 1⟩
  else none

/-- Delete the character at the place. At the end there is none. -/
def delete? (buffer : Buffer) : Option Buffer :=
  if buffer.offset < buffer.text.length then
    some ⟨buffer.text.eraseIdx buffer.offset, buffer.offset⟩
  else none

/-- Step one character back, if there is one. -/
def left (buffer : Buffer) : Buffer := ⟨buffer.text, buffer.offset - 1⟩

/-- Step one character on, if there is one. -/
def right (buffer : Buffer) : Buffer :=
  ⟨buffer.text, min (buffer.offset + 1) buffer.text.length⟩

/-- The buffer with some characters before its place, nearest first, and some that follow. -/
def ofCut (before after : List Char) : Buffer := ⟨before.reverse ++ after, before.length⟩

theorem isSome_backspace? (buffer : Buffer) :
    buffer.backspace?.isSome = decide (0 < buffer.offset) := by
  rw [backspace?]
  split
  next h => simp [h]
  next h => simp [h]

theorem isSome_delete? (buffer : Buffer) :
    buffer.delete?.isSome = decide (buffer.offset < buffer.text.length) := by
  rw [delete?]
  split
  next h => simp [h]
  next h => simp [h]

variable (c : Char) (before after : List Char)

@[simp] theorem insert_ofCut : (ofCut before after).insert c = ofCut (c :: before) after := by
  have hlength : before.reverse.length = before.length := List.length_reverse
  simp [insert, ofCut, List.take_left' hlength, List.drop_left' hlength]

@[simp] theorem backspace?_ofCut_nil : (ofCut [] after).backspace? = none := rfl

@[simp] theorem backspace?_ofCut_cons :
    (ofCut (c :: before) after).backspace? = some (ofCut before after) := by
  simp [backspace?, ofCut, List.eraseIdx_append_of_length_le]

@[simp] theorem delete?_ofCut_nil : (ofCut before []).delete? = none := by
  simp [delete?, ofCut]

@[simp] theorem delete?_ofCut_cons :
    (ofCut before (c :: after)).delete? = some (ofCut before after) := by
  simp [delete?, ofCut, List.eraseIdx_append_of_length_le]

@[simp] theorem left_ofCut_nil : (ofCut [] after).left = ofCut [] after := rfl

@[simp] theorem left_ofCut_cons : (ofCut (c :: before) after).left = ofCut before (c :: after) := by
  simp [left, ofCut]

@[simp] theorem right_ofCut_nil : (ofCut before []).right = ofCut before [] := by
  simp [right, ofCut]

@[simp] theorem right_ofCut_cons :
    (ofCut before (c :: after)).right = ofCut (c :: before) after := by
  simp [right, ofCut]

end Buffer

/-- A text with some lines above one of its lines and some below it. -/
theorem joinLines_append_cons (above : List Line) (line : Line) (below : List Line) :
    joinLines (above ++ line :: below) =
      above.flatMap (· ++ ['\n']) ++ line ++ below.flatMap ('\n' :: ·) := by
  induction above with
  | nil =>
    induction below generalizing line with
    | nil => simp [joinLines]
    | cons next below ih =>
      have hrest := ih next
      simp only [joinLines, List.nil_append, List.flatMap_nil] at hrest
      simp [joinLines, List.intercalate_cons_cons, hrest]
  | cons first above ih =>
    obtain ⟨next, rest, hrest⟩ := List.exists_cons_of_ne_nil
      (List.append_ne_nil_of_right_ne_nil above (List.cons_ne_nil line below))
    simp only [joinLines, hrest] at ih
    simp [joinLines, hrest, List.intercalate_cons_cons, ih]

namespace Editor

/-- The number of characters before the cursor in the whole text, of which each line above the
cursor has one more for its line break. -/
def offset (editor : Editor) : Nat :=
  ((editor.lines.take editor.row).map (·.length + 1)).sum + editor.column

/-- The whole text and the place of the cursor in it. -/
def buffer (editor : Editor) : Buffer := ⟨editor.text, editor.offset⟩

/-- The characters before the cursor, nearest first. -/
def charsBefore (editor : Editor) : List Char :=
  editor.before ++ editor.above.flatMap fun line ↦ '\n' :: line.reverse

/-- The characters that follow the cursor. -/
def charsAfter (editor : Editor) : List Char := editor.after ++ editor.below.flatMap ('\n' :: ·)

variable (editor : Editor)

theorem text_eq : editor.text = editor.charsBefore.reverse ++ editor.charsAfter := by
  have hlines : editor.above.reverse.flatMap (· ++ ['\n']) =
      (editor.above.flatMap fun line ↦ '\n' :: line.reverse).reverse := by
    simp [List.reverse_flatMap, Function.comp_def]
  rw [text, lines, joinLines_append_cons, hlines]
  simp [current, charsBefore, charsAfter]

theorem offset_eq : editor.offset = editor.charsBefore.length := by
  have habove : editor.lines.take editor.row = editor.above.reverse :=
    List.take_left' List.length_reverse
  rw [offset, habove, charsBefore, List.length_append, List.length_flatMap, column]
  simp [List.map_reverse, List.sum_reverse, Nat.add_comm]

theorem offset_le_length_text : editor.offset ≤ editor.text.length := by
  simp [offset_eq, text_eq]

/-- The flat text of an editor is cut where the editor is. -/
theorem buffer_eq : editor.buffer = .ofCut editor.charsBefore editor.charsAfter := by
  rw [buffer, text_eq, offset_eq, Buffer.ofCut]

/-! ## Edits -/

theorem buffer_insertChar (c : Char) :
    (editor.insertChar c).buffer = editor.buffer.insert c := by
  rw [buffer_eq, buffer_eq, Buffer.insert_ofCut]
  rfl

/-- Cutting the line is writing a line break. -/
theorem buffer_insertNewline : editor.insertNewline.buffer = editor.buffer.insert '\n' := by
  rw [buffer_eq, buffer_eq, Buffer.insert_ofCut]
  simp [insertNewline, charsBefore, charsAfter]

theorem map_buffer_backspace? :
    editor.backspace?.map buffer = editor.buffer.backspace? := by
  rw [buffer_eq]
  obtain ⟨above, before, after, below⟩ := editor
  cases before with
  | cons c before => simp [backspace?, buffer_eq, charsBefore, charsAfter]
  | nil =>
    cases above with
    | cons line above => simp [backspace?, buffer_eq, charsBefore, charsAfter]
    | nil => simp [backspace?, charsBefore]

theorem map_buffer_delete? : editor.delete?.map buffer = editor.buffer.delete? := by
  rw [buffer_eq]
  obtain ⟨above, before, after, below⟩ := editor
  cases after with
  | cons c after => simp [delete?, buffer_eq, charsBefore, charsAfter]
  | nil =>
    cases below with
    | cons line below => simp [delete?, buffer_eq, charsBefore, charsAfter]
    | nil => simp [delete?, charsAfter]

/-! ## Steps of the cursor -/

theorem buffer_left : editor.left.buffer = editor.buffer.left := by
  rw [buffer_eq, buffer_eq]
  obtain ⟨above, before, after, below⟩ := editor
  cases before with
  | cons c before => simp [left, charsBefore, charsAfter]
  | nil =>
    cases above with
    | cons line above => simp [left, charsBefore, charsAfter]
    | nil => simp [left, charsBefore]

theorem buffer_right : editor.right.buffer = editor.buffer.right := by
  rw [buffer_eq, buffer_eq]
  obtain ⟨above, before, after, below⟩ := editor
  cases after with
  | cons c after => simp [right, charsBefore, charsAfter]
  | nil =>
    cases below with
    | cons line below => simp [right, charsBefore, charsAfter]
    | nil => simp [right, charsAfter]

theorem lines_left : editor.left.lines = editor.lines := by
  obtain ⟨above, before, after, below⟩ := editor
  cases before with
  | cons c before => simp [left, lines, current]
  | nil => cases above <;> simp [left, lines, current]

theorem lines_right : editor.right.lines = editor.lines := by
  obtain ⟨above, before, after, below⟩ := editor
  cases after with
  | cons c after => simp [right, lines, current]
  | nil => cases below <;> simp [right, lines, current]

/-! ## Moves by lines -/

/-- The lines around a place. -/
def placeLines : Place → List Line
  | (above, line, below) => above.reverse ++ line :: below

theorem placeLines_climb (count : Nat) (place : Place) :
    placeLines (climb count place) = placeLines place := by
  fun_induction climb count place with
  | case1 n line above current below ih => simpa [placeLines] using ih
  | case2 => rfl

theorem placeLines_descend (count : Nat) (place : Place) :
    placeLines (descend count place) = placeLines place := by
  fun_induction descend count place with
  | case1 n above current line below ih => simpa [placeLines] using ih
  | case2 => rfl

theorem length_climb (count : Nat) (place : Place) :
    (climb count place).1.length = place.1.length - count := by
  fun_induction climb count place with
  | case1 n line above current below ih => simpa using ih
  | case2 count place hstop =>
    obtain ⟨above, current, below⟩ := place
    cases count with
    | zero => rfl
    | succ n =>
      cases above with
      | nil => simp
      | cons line above => exact absurd rfl (hstop n line above current below rfl)

theorem length_descend (count : Nat) (place : Place) :
    (descend count place).1.length =
      min (place.1.length + count) ((placeLines place).length - 1) := by
  fun_induction descend count place with
  | case1 n above current line below ih =>
    simp only [placeLines, List.length_append, List.length_reverse, List.length_cons] at ih ⊢
    omega
  | case2 count place hstop =>
    obtain ⟨above, current, below⟩ := place
    simp only [placeLines, List.length_append, List.length_reverse, List.length_cons]
    cases count with
    | zero => omega
    | succ n =>
      cases below with
      | nil => simp
      | cons line below => exact absurd rfl (hstop n above current line below rfl)

/-- The cursor went to a row and a column, or to the end of the line there if it has no such column,
and the lines, and with them the text, are what they were. -/
structure MovedTo (editor' : Editor) (row column : Nat) : Prop where
  lines_eq : editor'.lines = editor.lines
  row_eq : editor'.row = row
  column_eq : ∃ line, editor.lines[row]? = some line ∧ editor'.column = min column line.length

/-- A cursor that is put into a column of a place has moved there. -/
theorem movedTo_atColumn {place : Place} (hplace : placeLines place = editor.lines)
    (column : Nat) : editor.MovedTo (atColumn column place) place.1.length column := by
  obtain ⟨above, line, below⟩ := place
  have hlines : (atColumn column (above, line, below)).lines = editor.lines := by
    rw [← hplace]
    simp [atColumn, lines, current, placeLines]
  refine ⟨hlines, rfl, line, ?_, ?_⟩
  · simp [← hplace, placeLines]
  · simp [atColumn, Editor.column]

theorem movedTo_up (count : Nat) :
    editor.MovedTo (editor.up count) (editor.row - count) editor.column := by
  have hplace := placeLines_climb count editor.place
  have hrow : (climb count editor.place).1.length = editor.row - count := length_climb _ _
  rw [up, ← hrow]
  exact editor.movedTo_atColumn hplace editor.column

theorem movedTo_down (count : Nat) :
    editor.MovedTo (editor.down count) (min (editor.row + count) (editor.lines.length - 1))
      editor.column := by
  have hplace := placeLines_descend count editor.place
  have hrow : (descend count editor.place).1.length =
      min (editor.row + count) (editor.lines.length - 1) := length_descend _ _
  rw [down, ← hrow]
  exact editor.movedTo_atColumn hplace editor.column

theorem movedTo_home : editor.MovedTo editor.home editor.row 0 :=
  ⟨rfl, rfl, editor.current, editor.getElem?_row_lines, by simp [home, column]⟩

theorem movedTo_toLineEnd :
    editor.MovedTo editor.toLineEnd editor.row editor.current.length := by
  refine ⟨?_, rfl, editor.current, editor.getElem?_row_lines, ?_⟩
  · simp [toLineEnd, lines, current]
  · simp [toLineEnd, column]

/-! ## Any operations -/

/-- What can be done to an editor. -/
inductive Operation where
  | insertChar (c : Char)
  | insertNewline
  | backspace
  | delete
  | left
  | right
  | up (count : Nat)
  | down (count : Nat)
  | home
  | lineEnd
  | clear

/-- The editor after an operation. One that there is nothing for changes nothing. -/
def apply (editor : Editor) : Operation → Editor
  | .insertChar c => editor.insertChar c
  | .insertNewline => editor.insertNewline
  | .backspace => editor.backspace?.getD editor
  | .delete => editor.delete?.getD editor
  | .left => editor.left
  | .right => editor.right
  | .up count => editor.up count
  | .down count => editor.down count
  | .home => editor.home
  | .lineEnd => editor.toLineEnd
  | .clear => empty

/-- An editor that began with a text, or empty without one, after some operations. -/
def run (start : Option (List Char)) (operations : List Operation) : Editor :=
  operations.foldl apply (start.elim empty ofText)

end Editor

end Reckoner
