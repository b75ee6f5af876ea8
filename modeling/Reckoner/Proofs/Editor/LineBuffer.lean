import Reckoner.Proofs.Editor.Stored

/-!
# A line buffer as a flat text

Whatever is done to a line buffer, its cursor stays inside the text: there is a line in its row, and
the line has its column. Inside the text, and only there, a line buffer is the stored form of an
editor, and so each operation on it does to the flat text what its name says. No operation fails but
a move downwards in a checked build that asks for a row beyond all machine words.
-/

namespace Reckoner

namespace LineBuffer

/-! ## Inside the text -/

/-- The cursor is inside the text. -/
structure InRange (buffer : LineBuffer) : Prop where
  row_lt : buffer.row < buffer.lines.length
  column_le : ∃ line, buffer.current? = some line ∧ buffer.column ≤ line.length

/-- The cursor is inside the text exactly if the buffer is the stored form of an editor. -/
theorem inRange_iff {buffer : LineBuffer} :
    buffer.InRange ↔ ∃ editor : Editor, editor.stored = buffer := by
  constructor
  · rintro ⟨hrow, line, hcurrent, hcolumn⟩
    obtain ⟨lines, row, column⟩ := buffer
    obtain ⟨_, rfl⟩ := List.getElem?_eq_some_iff.mp hcurrent
    refine ⟨⟨((lines.take row).map String.toList).reverse, (lines[row].toList.take column).reverse,
      lines[row].toList.drop column, (lines.drop (row + 1)).map String.toList⟩, ?_⟩
    have hlength : column ≤ lines[row].toList.length := by
      rwa [String.length_toList]
    rw [Editor.stored_mk, around]
    simp [Function.comp_def, Nat.le_of_lt hrow, hlength]
  · rintro ⟨editor, rfl⟩
    refine ⟨?_, String.ofList editor.current, ?_, ?_⟩
    · simpa [Editor.stored] using editor.row_lt_length_lines
    · rw [current?, Editor.stored, List.getElem?_map, editor.getElem?_row_lines, Option.map_some]
    · rw [String.length_ofList]
      exact editor.column_le_length_current

/-! ## The flat text -/

/-- The number of characters before the cursor in the whole text, of which each line above the
cursor has one more for its line break. -/
def offset (buffer : LineBuffer) : Nat :=
  ((buffer.lines.take buffer.row).map (·.length + 1)).sum + buffer.column

/-- The whole text and the place of the cursor in it. -/
def flat (buffer : LineBuffer) : Buffer := ⟨buffer.text, buffer.offset⟩

theorem text_stored (editor : Editor) : editor.stored.text = editor.text := by
  simp [text, Editor.stored, Editor.text, Function.comp_def]

theorem offset_stored (editor : Editor) : editor.stored.offset = editor.offset := by
  simp [offset, Editor.stored, Editor.offset, ← List.map_take, Function.comp_def]

theorem flat_stored (editor : Editor) : editor.stored.flat = editor.buffer := by
  rw [flat, text_stored, offset_stored, Editor.buffer]

/-- The cursor went to a row and a column, or to the end of the line there if it has no such column,
and the lines, and with them the text, are what they were. -/
structure MovedTo (buffer buffer' : LineBuffer) (row column : Nat) : Prop where
  lines_eq : buffer'.lines = buffer.lines
  row_eq : buffer'.row = row
  column_eq : ∃ line, buffer.lines[row]? = some line ∧ buffer'.column = min column line.length

theorem movedTo_stored {editor editor' : Editor} {row column : Nat}
    (h : editor.MovedTo editor' row column) : editor.stored.MovedTo editor'.stored row column := by
  obtain ⟨line, hline, hcolumn⟩ := h.column_eq
  refine ⟨congrArg (List.map String.ofList) h.lines_eq, h.row_eq, String.ofList line, ?_, ?_⟩
  · rw [Editor.stored, List.getElem?_map, hline, Option.map_some]
  · rw [String.length_ofList]
    exact hcolumn

/-- The cursor is inside the text, and every operation does to the flat text what its name says. -/
structure Refines (checked : Bool) (buffer : LineBuffer) : Prop where
  lines_ne_nil : buffer.lines ≠ []
  inRange : buffer.InRange
  offset_le : buffer.offset ≤ buffer.text.length
  insertChar : ∀ c, (buffer.insertChar? c).map flat = some (buffer.flat.insert c)
  insertNewline : buffer.insertNewline?.map flat = some (buffer.flat.insert '\n')
  /-- It says that something changed exactly if there is a character before the cursor. -/
  backspace : buffer.backspace?.map (fun result ↦ (result.1.flat, result.2)) =
    some (buffer.flat.backspace?.getD buffer.flat, decide (0 < buffer.offset))
  /-- It says that something changed exactly if there is a character behind the cursor. -/
  delete : buffer.delete?.map (fun result ↦ (result.1.flat, result.2)) =
    some (buffer.flat.delete?.getD buffer.flat, decide (buffer.offset < buffer.text.length))
  left : buffer.left?.map flat = some buffer.flat.left
  right : buffer.right?.map flat = some buffer.flat.right
  up : ∀ count, ∃ buffer', buffer.up? count = some buffer' ∧
    buffer.MovedTo buffer' (buffer.row - count) buffer.column
  down : ∀ count row, wordSum? checked buffer.row count = some row →
    ∃ buffer', buffer.down? checked count = some buffer' ∧
      buffer.MovedTo buffer' (min row (buffer.lines.length - 1)) buffer.column
  home : buffer.MovedTo buffer.home buffer.row 0
  lineEnd : ∃ buffer' line, buffer.toLineEnd? = some buffer' ∧ buffer.current? = some line ∧
    buffer.MovedTo buffer' buffer.row line.length

/-- Inside the text a line buffer is a flat text to every operation. -/
theorem refines_stored (checked : Bool) (editor : Editor) : editor.stored.Refines checked where
  lines_ne_nil := by
    have hrow := (inRange_iff.mpr ⟨editor, rfl⟩).row_lt
    exact List.length_pos_iff.mp (Nat.zero_lt_of_lt hrow)
  inRange := inRange_iff.mpr ⟨editor, rfl⟩
  offset_le := by
    rw [offset_stored, text_stored]
    exact editor.offset_le_length_text
  insertChar c := by
    rw [editor.stored_insertChar, Option.map_some, flat_stored, flat_stored,
      editor.buffer_insertChar]
  insertNewline := by
    rw [editor.stored_insertNewline, Option.map_some, flat_stored, flat_stored,
      editor.buffer_insertNewline]
  backspace := by
    have hchanged : editor.backspace?.isSome = decide (0 < editor.offset) := by
      rw [← Option.isSome_map, editor.map_buffer_backspace?, Buffer.isSome_backspace?]
      rfl
    rw [editor.stored_backspace, Option.map_some, flat_stored, flat_stored, offset_stored, hchanged,
      ← editor.map_buffer_backspace?, Option.getD_map]
  delete := by
    have hchanged : editor.delete?.isSome = decide (editor.offset < editor.text.length) := by
      rw [← Option.isSome_map, editor.map_buffer_delete?, Buffer.isSome_delete?]
      rfl
    rw [editor.stored_delete, Option.map_some, flat_stored, flat_stored, offset_stored,
      text_stored, hchanged, ← editor.map_buffer_delete?, Option.getD_map]
  left := by rw [editor.stored_left, Option.map_some, flat_stored, flat_stored, editor.buffer_left]
  right := by
    rw [editor.stored_right, Option.map_some, flat_stored, flat_stored, editor.buffer_right]
  up count := ⟨_, editor.stored_up count, movedTo_stored (editor.movedTo_up count)⟩
  down count row hsum := by
    have hlast : min row (editor.lines.length - 1) < editor.lines.length := by
      have := editor.row_lt_length_lines
      omega
    have hmoved := editor.movedTo_toRow hlast
    have hlength : editor.stored.lines.length = editor.lines.length := List.length_map _
    rw [hlength]
    exact ⟨_, editor.stored_down hsum hmoved, movedTo_stored hmoved⟩
  home := by
    rw [editor.stored_home]
    exact movedTo_stored editor.movedTo_home
  lineEnd := by
    refine ⟨_, String.ofList editor.current, editor.stored_toLineEnd, ?_, ?_⟩
    · rw [current?, Editor.stored, List.getElem?_map, editor.getElem?_row_lines, Option.map_some]
    · rw [String.length_ofList]
      exact movedTo_stored editor.movedTo_toLineEnd

/-! ## Runs -/

section

variable {checked : Bool} {start : Option (List Char)} {operations : List Editor.Operation}

/-- A line buffer begins as the stored form of an editor. -/
theorem stored_start (start : Option (List Char)) :
    (start.elim Editor.empty Editor.ofText).stored = start.elim empty ofText := by
  cases start with
  | none => exact Editor.stored_empty
  | some text => exact Editor.stored_ofText text

/-- Operations one after the other lead from the stored form of an editor to that of an editor, up
to the first that fails. -/
theorem exists_stored_of_foldlM (checked : Bool) (operations : List Editor.Operation)
    (editor : Editor) :
    (∃ editor' : Editor, operations.foldlM (step? checked) editor.stored = some editor'.stored) ∨
      operations.foldlM (step? checked) editor.stored = none ∧ checked = true ∧
        ∃ (before after : List Editor.Operation) (count : Nat) (editor' : Editor),
          operations = before ++ .down count :: after ∧
          before.foldlM (step? checked) editor.stored = some editor'.stored ∧
          wordCount ≤ editor'.row + count := by
  induction operations generalizing editor with
  | nil => exact .inl ⟨editor, rfl⟩
  | cons operation rest ih =>
    rw [List.foldlM_cons]
    rcases editor.step?_stored_or checked operation with
      ⟨next, hstep⟩ | ⟨hfails, hchecked, count, rfl, hgreat⟩
    · rw [hstep, Option.bind_eq_bind, Option.bind_some]
      rcases ih next with hends | ⟨hfails, hchecked, before, after, count, editor', rfl, hbefore,
        hgreat⟩
      · exact .inl hends
      · refine .inr ⟨hfails, hchecked, operation :: before, after, count, editor', rfl, ?_, hgreat⟩
        rw [List.foldlM_cons, hstep, Option.bind_eq_bind, Option.bind_some, hbefore]
    · rw [hfails]
      exact .inr ⟨rfl, hchecked, [], rest, count, editor, rfl, rfl, hgreat⟩

/-- While the rows that are asked for are numbers of machine words, a line buffer stays the stored
form of the editor that the same operations are done to. -/
theorem foldlM_step?_stored (checked : Bool) (operations : List Editor.Operation)
    (editor : Editor) (hfits : ∀ before operation after, operations = before ++ operation :: after →
      operation.Fits (before.foldl Editor.apply editor).row) :
    operations.foldlM (step? checked) editor.stored =
      some (operations.foldl Editor.apply editor).stored := by
  induction operations generalizing editor with
  | nil => rfl
  | cons operation rest ih =>
    have hstep : editor.stored.step? checked operation = some (editor.apply operation).stored :=
      Editor.step?_stored checked (hfits [] operation rest rfl)
    rw [List.foldlM_cons, hstep, Option.bind_eq_bind, Option.bind_some]
    refine ih _ fun before other after hrest ↦ ?_
    exact hfits (operation :: before) other after (by rw [hrest, List.cons_append])

/-- A run of operations on a line buffer is the same run on the editor. -/
theorem stored_run (hfits : ∀ before operation after, operations = before ++ operation :: after →
      operation.Fits (Editor.run start before).row) :
    run? checked start operations = some (Editor.run start operations).stored := by
  rw [run?, ← stored_start]
  exact foldlM_step?_stored checked operations _ hfits

/-- After any operations the cursor is inside the text and the line buffer is a flat text to the
next operation. The only operation that fails is a move downwards in a checked build, to a row that
is beyond all machine words. -/
theorem refines_run (checked : Bool) (start : Option (List Char))
    (operations : List Editor.Operation) :
    (∀ buffer, run? checked start operations = some buffer → buffer.Refines checked) ∧
    (run? checked start operations = none → checked = true ∧
      ∃ (before after : List Editor.Operation) (count : Nat) (buffer : LineBuffer),
        operations = before ++ .down count :: after ∧
        run? checked start before = some buffer ∧ wordCount ≤ buffer.row + count) := by
  have hrun := exists_stored_of_foldlM checked operations (start.elim Editor.empty Editor.ofText)
  simp only [stored_start] at hrun
  constructor
  · intro buffer hbuffer
    rcases hrun with ⟨editor, heditor⟩ | ⟨hfails, -⟩
    · cases hbuffer.symm.trans heditor
      exact refines_stored checked editor
    · cases hbuffer.symm.trans hfails
  · intro hfails
    rcases hrun with ⟨editor, heditor⟩ | ⟨-, hchecked, before, after, count, editor, hoperations,
      hbefore, hgreat⟩
    · cases hfails.symm.trans heditor
    · exact ⟨hchecked, before, after, count, editor.stored, hoperations, hbefore, hgreat⟩

-- Where the sum of words is not checked, a move far down comes out at the top.
example : run? false (some ['a', '\n', 'b']) [.down 1, .down (2 ^ 64 - 1)] =
    some ⟨["a", "b"], 0, 0⟩ := by decide +kernel

end

end LineBuffer

end Reckoner
