import Reckoner.LineBuffer
import Reckoner.Proofs.Editor.Buffer

/-!
# Editors as they are stored

The form in which a text with a cursor is stored has states that are none: a row without a line, a
column behind the end of its line, a position of bytes inside a character. An editor that is cut at
its cursor has no such states. Here each operation on the stored form is shown to do what the
operation on the cut one does.
-/

namespace Reckoner

namespace LineBuffer

/-- A line with the lines above it, the nearest first, and those below it, and the cursor in a
column of it. -/
def around (above : List Line) (line : Line) (below : List Line) (column : Nat) : LineBuffer :=
  ⟨(above.reverse ++ line :: below).map String.ofList, above.length, column⟩

section

variable (above below : List Line) (line next other : Line) (column column' : Nat)

theorem row_around : (around above line below column).row = above.length := rfl

theorem column_around : (around above line below column).column = column := rfl

theorem length_lines_around :
    (around above line below column).lines.length = above.length + 1 + below.length := by
  simp only [around, List.length_map, List.length_append, List.length_reverse, List.length_cons]
  omega

theorem current?_around :
    (around above line below column).current? = some (String.ofList line) := by
  simp [current?, around]

theorem replace_around :
    (around above line below column).replace (String.ofList other) =
      around above other below column := by
  simp [replace, around]

/-- The line below is in the next row. -/
theorem getElem?_lines_around :
    (around above line (next :: below) column).lines[above.length + 1]? =
      some (String.ofList next) := by
  simp [around]

/-- The lines stay when the cursor goes to the row above. -/
theorem mk_lines_around :
    (⟨(around (next :: above) line below column).lines, above.length, column'⟩ : LineBuffer) =
      around above next (line :: below) column' := by
  simp [around]

theorem take_append_drop_lines_around :
    (around above line below column).lines.take (above.length + 1) ++
        String.ofList next :: (around above line below column).lines.drop (above.length + 1) =
      (around (line :: above) next below column).lines := by
  have hlength : (above.reverse.map String.ofList ++ [String.ofList line]).length =
      above.length + 1 := by simp
  have hlines : (around above line below column).lines =
      (above.reverse.map String.ofList ++ [String.ofList line]) ++ below.map String.ofList := by
    simp [around]
  rw [hlines, List.take_left' hlength, List.drop_left' hlength]
  simp [around]

/-- The line below is taken away. -/
theorem mk_eraseIdx_around :
    (⟨(around above line (next :: below) column).lines.eraseIdx (above.length + 1), above.length,
      column'⟩ : LineBuffer) = around above line below column' := by
  simp [around, List.eraseIdx_append_of_length_le]

/-- The line of the cursor is taken away, and the cursor goes to the row above. -/
theorem mk_eraseIdx_around_cons :
    (⟨(around (next :: above) line below column).lines.eraseIdx (above.length + 1), above.length,
      column'⟩ : LineBuffer) = around above next below column' := by
  simp [around, List.eraseIdx_append_of_length_le]

/-- The cursor is before the end of its line exactly if characters follow it there. -/
theorem lt_length_line_iff (before after : List Char) :
    before.length < (String.ofList (before.reverse ++ after)).length ↔ after ≠ [] := by
  rw [String.length_ofList, List.length_append, List.length_reverse, ← List.length_pos_iff]
  omega

end

section

variable {buffer : LineBuffer} {line : String}

theorem delete?_eq (hcurrent : buffer.current? = some line) :
    buffer.delete? =
      if buffer.column < line.length then
        (removeAt? line (byteAt line buffer.column)).map fun line ↦ (buffer.replace line, true)
      else if buffer.lines.length ≤ buffer.row + 1 then some (buffer, false)
      else buffer.lines[buffer.row + 1]?.map fun next ↦
        ((⟨buffer.lines.eraseIdx (buffer.row + 1), buffer.row, buffer.column⟩ : LineBuffer).replace
          (line ++ next), true) := by
  rw [delete?, hcurrent, Option.bind_eq_bind, Option.bind_some]
  simp only [Option.map_eq_bind]
  rfl

theorem right?_eq (hcurrent : buffer.current? = some line) :
    buffer.right? =
      if buffer.column < line.length then some { buffer with column := buffer.column + 1 }
      else if buffer.row + 1 < buffer.lines.length then
        some { buffer with row := buffer.row + 1, column := 0 }
      else some buffer := by
  rw [right?, hcurrent]
  rfl

end

end LineBuffer

namespace Editor

open LineBuffer

/-- The form in which an editor is stored. -/
def stored (editor : Editor) : LineBuffer :=
  ⟨editor.lines.map String.ofList, editor.row, editor.column⟩

theorem stored_mk (above : List Line) (before after : List Char) (below : List Line) :
    stored ⟨above, before, after, below⟩ =
      around above (before.reverse ++ after) below before.length := rfl

variable (editor : Editor)

theorem stored_insertChar (c : Char) :
    editor.stored.insertChar? c = some (editor.insertChar c).stored := by
  obtain ⟨above, before, after, below⟩ := editor
  have hinsert := insertAt?_byteAt before.reverse after c
  rw [List.length_reverse] at hinsert
  simp only [stored_mk, insertChar?, current?_around, column_around, Option.bind_eq_bind,
    Option.bind_some, hinsert, replace_around, insertChar, List.reverse_cons, List.append_assoc]
  rfl

theorem stored_insertNewline :
    editor.stored.insertNewline? = some editor.insertNewline.stored := by
  obtain ⟨above, before, after, below⟩ := editor
  have hcut := cut?_byteAt before.reverse after
  rw [List.length_reverse] at hcut
  have hrow :
      above.length + 1 ≤ (around above before.reverse below before.length).lines.length := by
    rw [length_lines_around]
    exact Nat.le_add_right _ _
  simp only [stored_mk, insertNewline?, current?_around, column_around, row_around,
    Option.bind_eq_bind, Option.bind_some, hcut, replace_around, if_pos hrow,
    take_append_drop_lines_around]
  rfl

theorem stored_backspace :
    editor.stored.backspace? =
      some ((editor.backspace?.getD editor).stored, editor.backspace?.isSome) := by
  obtain ⟨above, before, after, below⟩ := editor
  cases before with
  | cons c before =>
    have hremove := removeAt?_byteAt before.reverse after c
    rw [List.length_reverse] at hremove
    simp only [stored_mk, LineBuffer.backspace?, column_around, List.length_cons,
      Nat.zero_lt_succ, if_true, current?_around, List.reverse_cons, List.append_assoc,
      List.singleton_append, Nat.add_sub_cancel, Option.bind_eq_bind, Option.bind_some, hremove,
      replace_around]
    rfl
  | nil =>
    cases above with
    | nil => rfl
    | cons line above =>
      simp only [stored_mk, LineBuffer.backspace?, column_around, List.length_nil,
        Nat.lt_irrefl, if_false, row_around, List.length_cons, Nat.succ_ne_zero, current?_around,
        List.reverse_nil, List.nil_append, Nat.add_sub_cancel, Option.bind_eq_bind,
        Option.bind_some, mk_eraseIdx_around_cons, ← String.ofList_append, replace_around,
        String.length_ofList]
      simp [backspace?, stored_mk, around]

theorem stored_delete :
    editor.stored.delete? =
      some ((editor.delete?.getD editor).stored, editor.delete?.isSome) := by
  obtain ⟨above, before, after, below⟩ := editor
  have hdelete := delete?_eq (current?_around above below (before.reverse ++ after) before.length)
  have hcolumn := lt_length_line_iff before after
  cases after with
  | cons c after =>
    have hremove := removeAt?_byteAt before.reverse after c
    rw [List.length_reverse] at hremove
    rw [stored_mk, hdelete]
    refine (if_pos (hcolumn.mpr (List.cons_ne_nil _ _))).trans ?_
    rw [column_around, hremove, Option.map_some, replace_around]
    rfl
  | nil =>
    rw [stored_mk, hdelete]
    refine (if_neg (mt hcolumn.mp (not_not_intro rfl))).trans ?_
    cases below with
    | nil =>
      refine (if_pos ?_).trans rfl
      rw [length_lines_around]
      exact Nat.le_refl _
    | cons line below =>
      have hrow : ¬ (around above before.reverse (line :: below) before.length).lines.length ≤
          above.length + 1 := by
        rw [length_lines_around]
        simp
      rw [List.append_nil]
      refine (if_neg hrow).trans ?_
      simp only [row_around, column_around, getElem?_lines_around, mk_eraseIdx_around,
        Option.map_some, ← String.ofList_append, replace_around]
      rfl

theorem stored_left : editor.stored.left? = some editor.left.stored := by
  obtain ⟨above, before, after, below⟩ := editor
  cases before with
  | cons c before =>
    simp only [stored_mk, left?, column_around, List.length_cons, Nat.zero_lt_succ, if_true,
      Nat.add_sub_cancel, left, List.reverse_cons, List.append_assoc]
    rfl
  | nil =>
    cases above with
    | nil => rfl
    | cons line above =>
      simp only [stored_mk, left?, column_around, row_around, List.length_nil, Nat.lt_irrefl,
        if_false, List.length_cons, Nat.zero_lt_succ, if_true, List.reverse_nil, List.nil_append,
        Nat.add_sub_cancel, mk_lines_around, current?_around, Option.bind_eq_bind,
        Option.bind_some, String.length_ofList]
      simp [left, stored_mk, around]

theorem stored_right : editor.stored.right? = some editor.right.stored := by
  obtain ⟨above, before, after, below⟩ := editor
  have hright := right?_eq (current?_around above below (before.reverse ++ after) before.length)
  have hcolumn := lt_length_line_iff before after
  cases after with
  | cons c after =>
    rw [stored_mk, hright]
    refine (if_pos (hcolumn.mpr (List.cons_ne_nil _ _))).trans ?_
    simp [right, stored_mk, around]
  | nil =>
    rw [stored_mk, hright]
    refine (if_neg (mt hcolumn.mp (not_not_intro rfl))).trans ?_
    cases below with
    | nil =>
      refine (if_neg ?_).trans rfl
      rw [length_lines_around]
      exact Nat.lt_irrefl _
    | cons line below =>
      refine (if_pos ?_).trans ?_
      · rw [length_lines_around, row_around]
        simp
      · simp [right, stored_mk, around]

/-! ## Moves by lines -/

/-- Where a move has put the cursor into a row, clamping leaves the column that it has there. -/
theorem clampColumn?_of_movedTo {editor' : Editor} {row : Nat}
    (h : editor.MovedTo editor' row editor.column) :
    clampColumn? { editor.stored with row } = some editor'.stored := by
  obtain ⟨line, hline, hcolumn⟩ := h.column_eq
  have hcurrent : current? { editor.stored with row } = some (String.ofList line) := by
    rw [current?, stored, List.getElem?_map, hline, Option.map_some]
  rw [clampColumn?, hcurrent, stored, stored, h.lines_eq, h.row_eq, hcolumn,
    ← String.length_ofList (l := line)]
  rfl

theorem stored_up (count : Nat) : editor.stored.up? count = some (editor.up count).stored :=
  editor.clampColumn?_of_movedTo (editor.movedTo_up count)

/-- A move downwards goes to the row that the sum of words says, or to the last. -/
theorem stored_down {checked : Bool} {count row : Nat} {editor' : Editor}
    (hsum : wordSum? checked editor.row count = some row)
    (h : editor.MovedTo editor' (min row (editor.lines.length - 1)) editor.column) :
    editor.stored.down? checked count = some editor'.stored := by
  have hlength : editor.stored.lines.length = editor.lines.length := List.length_map _
  have hsum' : wordSum? checked editor.stored.row count = some row := hsum
  rw [down?, hsum', Option.bind_eq_bind, Option.bind_some, hlength]
  exact editor.clampColumn?_of_movedTo h

theorem stored_home : editor.stored.home = editor.home.stored := by
  rw [stored, stored, editor.movedTo_home.lines_eq]
  rfl

theorem stored_toLineEnd : editor.stored.toLineEnd? = some editor.toLineEnd.stored := by
  have hcurrent : editor.stored.current? = some (String.ofList editor.current) := by
    rw [current?, stored, List.getElem?_map, editor.getElem?_row_lines, Option.map_some]
  obtain ⟨line, hline, hcolumn⟩ := editor.movedTo_toLineEnd.column_eq
  rw [editor.getElem?_row_lines, Option.some.injEq] at hline
  rw [← hline, Nat.min_self] at hcolumn
  rw [toLineEnd?, hcurrent, stored, stored, editor.movedTo_toLineEnd.lines_eq, hcolumn,
    ← String.length_ofList (l := editor.current)]
  rfl

/-- The cursor in any row, in its column or at the end of the line there. -/
def toRow (editor : Editor) (row : Nat) : Editor :=
  if row ≤ editor.row then editor.up (editor.row - row) else editor.down (row - editor.row)

theorem movedTo_toRow {row : Nat} (hrow : row < editor.lines.length) :
    editor.MovedTo (editor.toRow row) row editor.column := by
  rw [toRow]
  split
  · rename_i hle
    have hmoved := editor.movedTo_up (editor.row - row)
    rwa [Nat.sub_sub_self hle] at hmoved
  · rename_i hle
    have hmoved := editor.movedTo_down (row - editor.row)
    rwa [Nat.add_sub_cancel' (Nat.le_of_not_le hle), Nat.min_eq_left (Nat.le_sub_one_of_lt hrow)]
      at hmoved

theorem stored_empty : empty.stored = LineBuffer.empty := rfl

theorem stored_ofText (text : List Char) : (ofText text).stored = LineBuffer.ofText text := by
  rw [stored, lines_ofText, ofText]
  split <;> rfl

end Editor

/-! ## Any operations -/

namespace LineBuffer

open Editor

/-- The text after an operation. -/
def step? (checked : Bool) (buffer : LineBuffer) : Operation → Option LineBuffer
  | .insertChar c => buffer.insertChar? c
  | .insertNewline => buffer.insertNewline?
  | .backspace => buffer.backspace?.map Prod.fst
  | .delete => buffer.delete?.map Prod.fst
  | .left => buffer.left?
  | .right => buffer.right?
  | .up count => buffer.up? count
  | .down count => buffer.down? checked count
  | .home => some buffer.home
  | .lineEnd => buffer.toLineEnd?
  | .clear => some empty

/-- A text, or the empty one, after some operations. -/
def run? (checked : Bool) (start : Option (List Char)) (operations : List Operation) :
    Option LineBuffer :=
  operations.foldlM (step? checked) (start.elim empty ofText)

end LineBuffer

namespace Editor

open LineBuffer

/-- The row that an operation asks for is the number of a machine word. -/
def Operation.Fits (row : Nat) : Operation → Prop
  | .down count => row + count < wordCount
  | _ => True

/-- An operation on the stored form does what the operation on the cut one does. -/
theorem step?_stored (checked : Bool) {editor : Editor} {operation : Operation}
    (h : operation.Fits editor.row) :
    editor.stored.step? checked operation = some (editor.apply operation).stored := by
  cases operation with
  | insertChar c => exact editor.stored_insertChar c
  | insertNewline => exact editor.stored_insertNewline
  | backspace => exact congrArg (Option.map Prod.fst) editor.stored_backspace
  | delete => exact congrArg (Option.map Prod.fst) editor.stored_delete
  | left => exact editor.stored_left
  | right => exact editor.stored_right
  | up count => exact editor.stored_up count
  | down count => exact editor.stored_down (if_pos h) (editor.movedTo_down count)
  | home => exact congrArg some editor.stored_home
  | lineEnd => exact editor.stored_toLineEnd
  | clear => rfl

/-- Whether or not the row that is asked for is the number of a machine word, an operation fails or
leads to the stored form of an editor. It fails only in a checked build. -/
theorem step?_stored_or (checked : Bool) (editor : Editor) (operation : Operation) :
    (∃ editor' : Editor, editor.stored.step? checked operation = some editor'.stored) ∨
      editor.stored.step? checked operation = none ∧ checked = true ∧
        ∃ count, operation = .down count ∧ wordCount ≤ editor.row + count := by
  by_cases hfits : operation.Fits editor.row
  · exact .inl ⟨_, step?_stored checked hfits⟩
  · cases operation with
    | down count =>
      have hgreat : ¬ editor.row + count < wordCount := hfits
      cases checked with
      | true =>
        have hsum : wordSum? true editor.row count = none := by simp [wordSum?, hgreat]
        refine .inr ⟨?_, rfl, count, rfl, Nat.le_of_not_lt hgreat⟩
        have hsum' : wordSum? true editor.stored.row count = none := hsum
        rw [step?, down?, hsum']
        rfl
      | false =>
        have hsum : wordSum? false editor.row count = some ((editor.row + count) % wordCount) := by
          simp [wordSum?, hgreat]
        have hlast : min ((editor.row + count) % wordCount) (editor.lines.length - 1) <
            editor.lines.length := by
          have := editor.row_lt_length_lines
          omega
        exact .inl ⟨_, editor.stored_down hsum (editor.movedTo_toRow hlast)⟩
    | _ => exact absurd trivial hfits

end Editor

end Reckoner
