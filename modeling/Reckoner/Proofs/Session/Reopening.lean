import Reckoner.Proofs.Editor.Buffer
import Reckoner.Proofs.Fallible
import Reckoner.Session.InFolder

/-!
# Documents that are saved and opened again

A document is saved as one text, with a line feed between each line and the next, and a text is cut
at its line feeds when it is opened. Joining and cutting undo each other as long as no line has a
line feed in it. Opening also drops a carriage return at the end of a line, which is part of a line
break in some files, so that a line that really ends in one is not read back.

A folder gives back the text that was written last, so the lines of a document come back from its
file under just these two conditions.
-/

namespace Reckoner

/-! ## Cutting and joining -/

theorem pieces_eq_splitOn (text : List Char) : pieces text = text.splitOn '\n' := by
  induction text with
  | nil => rfl
  | cons c rest ih =>
    rw [pieces, List.splitOn_cons_eq_if_modifyHead, ← ih]
    simp only [beq_iff_eq]
    split
    · rfl
    · obtain ⟨piece, others, hpieces⟩ := List.exists_cons_of_ne_nil (pieces_ne_nil rest)
      rw [hpieces]
      rfl

/-- The pieces of a text with its line feeds between them are the text. -/
theorem joinLines_pieces (text : List Char) : joinLines (pieces text) = text := by
  rw [pieces_eq_splitOn]
  exact List.intercalate_splitOn '\n'

/-- The pieces of the text of some lines are the lines, if there are lines and none has a line feed
in it. -/
theorem pieces_joinLines {lines : List Line} (hne : lines ≠ [])
    (hfeed : ∀ line ∈ lines, '\n' ∉ line) : pieces (joinLines lines) = lines := by
  rw [pieces_eq_splitOn]
  exact List.splitOn_intercalate '\n' hfeed hne

/-- No piece has a line feed in it, and all its characters are of the text. -/
theorem mem_of_mem_pieces {text : List Char} :
    ∀ piece ∈ pieces text, ∀ c ∈ piece, c ∈ text ∧ c ≠ '\n' := by
  induction text with
  | nil => simp [pieces]
  | cons first rest ih =>
    intro piece hpiece c hc
    rw [pieces] at hpiece
    split at hpiece
    · rcases List.mem_cons.mp hpiece with rfl | hpiece
      · cases hc
      · exact (ih piece hpiece c hc).imp_left (List.mem_cons_of_mem first)
    · rename_i hfirst
      obtain ⟨next, others, hpieces⟩ := List.exists_cons_of_ne_nil (pieces_ne_nil rest)
      rw [hpieces] at hpiece ih
      have hrest {line : Line} (hline : line ∈ next :: others) (hmem : c ∈ line) :=
        (ih line hline c hmem).imp_left (List.mem_cons_of_mem first)
      rcases List.mem_cons.mp hpiece with rfl | hpiece
      · rcases List.mem_cons.mp hc with rfl | hc
        · exact ⟨List.mem_cons_self, hfirst⟩
        · exact hrest List.mem_cons_self hc
      · exact hrest (List.mem_cons_of_mem next hpiece) hc

namespace Line

/-- A line that can be read back: it has no line feed in it and no carriage return at its end. -/
def IsPlain (line : Line) : Prop := '\n' ∉ line ∧ line.getLast? ≠ some '\r'

instance (line : Line) : Decidable line.IsPlain := inferInstanceAs (Decidable (_ ∧ _))

variable {line : Line}

theorem dropReturn_eq_self_iff : line.dropReturn = line ↔ line.getLast? ≠ some '\r' := by
  rw [dropReturn]
  split
  · rename_i hlast
    obtain ⟨start, rfl⟩ := List.getLast?_eq_some_iff.mp hlast
    simp
  · rename_i hlast
    exact iff_of_true rfl hlast

theorem mem_of_mem_dropReturn {c : Char} (h : c ∈ line.dropReturn) : c ∈ line := by
  rw [dropReturn] at h
  split at h
  · exact List.dropLast_subset line h
  · exact h

end Line

/-- Some lines are those of their text exactly if all of them are plain. -/
theorem bufferLines_joinLines_iff {lines : List Line} (hne : lines ≠ []) :
    bufferLines (joinLines lines) = lines ↔ ∀ line ∈ lines, line.IsPlain := by
  have hreturns (hfeed : ∀ line ∈ lines, '\n' ∉ line) :
      bufferLines (joinLines lines) = lines ↔ ∀ line ∈ lines, line.getLast? ≠ some '\r' := by
    have hself : lines.map Line.dropReturn = lines ↔ ∀ line ∈ lines, line.dropReturn = line := by
      simpa using List.map_inj_left (f := Line.dropReturn) (g := id) (l := lines)
    rw [bufferLines, pieces_joinLines hne hfeed, hself]
    simp only [Line.dropReturn_eq_self_iff]
  constructor
  · intro hlines
    have hfeed : ∀ line ∈ lines, '\n' ∉ line := by
      intro line hline hmem
      rw [← hlines] at hline
      obtain ⟨piece, hpiece, rfl⟩ := List.mem_map.mp hline
      exact (mem_of_mem_pieces piece hpiece '\n' (Line.mem_of_mem_dropReturn hmem)).2 rfl
    exact fun line hline ↦ ⟨hfeed line hline, (hreturns hfeed).mp hlines line hline⟩
  · intro h
    exact (hreturns fun line hline ↦ (h line hline).1).mpr fun line hline ↦ (h line hline).2

/-- A text without carriage returns is cut into its pieces. -/
theorem bufferLines_of_notMem {text : List Char} (h : '\r' ∉ text) :
    bufferLines text = pieces text := by
  have hpiece : ∀ piece ∈ pieces text, piece.dropReturn = piece := by
    intro piece hpiece
    rw [Line.dropReturn_eq_self_iff]
    intro hlast
    exact h (mem_of_mem_pieces piece hpiece '\r' (List.mem_of_getLast? hlast)).1
  rw [bufferLines, List.map_congr_left hpiece, List.map_id']

/-! ## Files -/

namespace Folder

variable {folder folder' : Folder} {path text : String}

/-- What is a folder stays one when a file is put somewhere. -/
theorem hasFolder_put {route : Route} (h : folder.hasFolder route = true) (place : Route)
    (bytes : ByteArray) : (folder.put place bytes).hasFolder route = true := by
  simp only [hasFolder, put, Bool.or_eq_true, List.any_eq_true] at h ⊢
  rcases h with h | ⟨entry, hentry, hprefix⟩
  · exact .inl h
  · right
    by_cases hplace : entry.1 = place
    · exact ⟨(place, bytes), List.mem_cons_self, hplace ▸ hprefix⟩
    · refine ⟨entry, List.mem_cons_of_mem _ (List.mem_filter.mpr ⟨hentry, ?_⟩), hprefix⟩
      simpa using hplace

/-- Names that lead somewhere lead there when a file is put somewhere. -/
theorem follow_put {names : List String} {route target : Route}
    (h : folder.follow route names = .ok target) (place : Route) (bytes : ByteArray) :
    (folder.put place bytes).follow route names = .ok target := by
  induction names generalizing route with
  | nil => exact h
  | cons name rest ih =>
    rw [follow] at h ⊢
    split at h
    · cases h
    · rename_i hlimit
      rw [if_neg hlimit]
      split at h
      · rename_i hfolder
        rw [if_pos (hasFolder_put hfolder place bytes)]
        exact ih h
      · cases h

/-- So do paths. -/
theorem locate_put {target : Target} (h : folder.locate path = .ok target) (place : Route)
    (bytes : ByteArray) : (folder.put place bytes).locate path = .ok target := by
  rw [locate] at h ⊢
  dsimp only at h ⊢
  split at h
  · cases h
  · rename_i hempty
    split at h
    · cases h
    · rename_i hnull
      split at h
      · cases h
      · rename_i hlimit
        rw [if_neg hempty, if_neg hnull, if_neg hlimit]
        obtain ⟨parent, hparent, htarget⟩ := bind_eq_ok_iff.mp h
        rw [follow_put hparent]
        exact htarget

/-- The bytes of a file are those that were put there. -/
theorem file?_put (folder : Folder) (place : Route) (bytes : ByteArray) :
    (folder.put place bytes).file? place = some bytes := by
  simp [file?, put]

/-- A text that was written can be read. -/
theorem read_of_write (h : folder.write path text = .ok folder') :
    folder'.read path = .ok text := by
  rw [write] at h
  obtain ⟨target, htarget, hput⟩ := bind_eq_ok_iff.mp h
  dsimp only at hput
  split at hput
  · cases hput
  · rename_i hfile
    split at hput
    · cases hput
    · rename_i hlimit
      split at hput
      · cases hput
      · cases hput
        rw [read, locate_put htarget, ok_bind]
        dsimp only
        have htext : String.fromUTF8? text.toUTF8 = some text := dif_pos text.isValidUTF8
        rw [if_neg hlimit, file?_put]
        dsimp only
        rw [if_neg hfile, htext]
        rfl

end Folder

/-! ## Documents -/

namespace Editor

/-- The lines of a document are those of its text exactly if all of them are plain. -/
theorem lines_ofText_text_iff (editor : Editor) :
    (ofText editor.text).lines = editor.lines ↔ ∀ line ∈ editor.lines, line.IsPlain := by
  have hne : editor.lines ≠ [] :=
    List.ne_nil_of_length_pos (Nat.zero_lt_of_lt editor.row_lt_length_lines)
  rw [lines_ofText, text]
  exact bufferLines_joinLines_iff hne

/-- A document has the text that it was loaded with, if that has no carriage returns. -/
theorem text_ofText_of_notMem {text : List Char} (h : '\r' ∉ text) : (ofText text).text = text := by
  rw [Editor.text, lines_ofText, bufferLines_of_notMem h, joinLines_pieces]

end Editor

namespace Session

variable {s s' : Session} {folder : Folder} {key key' : Key} {path : String}

/-- A text that was saved in a folder can be opened by any session, which then has it. -/
theorem pressIn_read_of_pressIn_saving (hsave : (s.press key).2 = some (s.saving path))
    (hwrite : folder.replies.write path (String.ofList s.editor.text) = .ok ())
    (hopen : (s'.press key').2 = some (.read path)) :
    (s'.pressIn (s.pressIn folder key).2 key').1 =
      (s'.press key').1.opened path (.ok (String.ofList s.editor.text)) := by
  obtain ⟨after, hafter⟩ : ∃ after, folder.write path (String.ofList s.editor.text) = .ok after := by
    change (folder.write path (String.ofList s.editor.text)).map _ = .ok () at hwrite
    cases hafter : folder.write path (String.ofList s.editor.text) with
    | ok after => exact ⟨after, rfl⟩
    | error fault =>
      rw [hafter] at hwrite
      cases hwrite
  have hfolder : (s.pressIn folder key).2 = after := by
    rw [pressIn, hsave]
    change (folder.write path (String.ofList s.editor.text)).toOption.getD folder = after
    rw [hafter]
    rfl
  rw [hfolder, pressIn, pressed]
  dsimp only
  rw [hopen, fulfil]
  change (s'.press key').1.opened path (after.read path) = _
  rw [Folder.read_of_write hafter]

/-- A document comes back from its file exactly if all its lines are plain. This holds of the lines
that are made of its text, and so of a document that is saved by a key, when a key opens the file
again. A text without carriage returns comes back in any case. -/
theorem lines_reopened_iff :
    (∀ editor : Editor, (Editor.ofText editor.text).lines = editor.lines ↔
      ∀ line ∈ editor.lines, line.IsPlain) ∧
    (∀ text, '\r' ∉ text → (Editor.ofText text).text = text) ∧
    ∀ (s s' : Session) (folder : Folder) (key key' : Key) (path : String),
      (s.press key).2 = some (s.saving path) →
      folder.replies.write path (String.ofList s.editor.text) = .ok () →
      (s'.press key').2 = some (.read path) →
      let reopened := (s'.pressIn (s.pressIn folder key).2 key').1
      reopened.path = some path ∧ reopened.dirty = false ∧
        (reopened.editor.lines = s.editor.lines ↔ ∀ line ∈ s.editor.lines, line.IsPlain) := by
  refine ⟨Editor.lines_ofText_text_iff, fun _ ↦ Editor.text_ofText_of_notMem, ?_⟩
  intro s s' folder key key' path hsave hwrite hopen reopened
  have hreopened : reopened =
      (s'.press key').1.opened path (.ok (String.ofList s.editor.text)) :=
    pressIn_read_of_pressIn_saving hsave hwrite hopen
  have heditor : reopened.editor = .ofText s.editor.text := by
    rw [hreopened]
    exact congrArg Editor.ofText String.toList_ofList
  refine ⟨by rw [hreopened]; rfl, by rw [hreopened]; rfl, ?_⟩
  rw [heditor]
  exact s.editor.lines_ofText_text_iff

/-- An edited document with an empty line at its end is saved and opened again, and so is one with
a line that ends in a carriage return. -/
theorem lines_reopened_iff_saved :
    let s (text : String) := new text.toList (some "f")
    let s' := { s "" with prompt := some ⟨.opening, " f".toList⟩ }
    let save : Key := ⟨.char 's', true⟩
    let enter : Key := ⟨.enter, false⟩
    let reopened (text : String) := (s'.pressIn ((s text).pressIn .empty save).2 enter).1
    (reopened "dim x: 1\r\nx\n").editor.lines = ["dim x: 1".toList, "x".toList, []] ∧
      (reopened "dim x: 1\r\nx\r\r").editor.lines ≠ ["dim x: 1".toList, "x\r".toList] := by
  intro s s' save enter reopened
  have hreopened (text : String) :=
    (lines_reopened_iff.2.2 (s text) s' .empty save enter "f" rfl rfl rfl).2.2
  have hplain := (hreopened "dim x: 1\r\nx\n").mpr (by decide)
  have hreturn := mt (hreopened "dim x: 1\r\nx\r\r").mp (by decide)
  exact ⟨hplain, hreturn⟩

end Session

end Reckoner
