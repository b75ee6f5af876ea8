import Reckoner.Proofs.Session.Run
import Reckoner.Proofs.Sheet.History

/-!
# The sheet of a session

The sheet of a session is computed in passes, and the text is edited between them. The link of the
two is the pending pass: an edit asks for one, and where none is asked for the rows of the sheet are
for the lines of the text. As the rows also stand, whatever the passes before were, such a session
shows what a new sheet would show on its text.
-/

namespace Reckoner.Session

/-- The rows of the sheet stand, and they are for the lines of the text unless a pass is pending. -/
structure UpToDate (s : Session) : Prop where
  current : Sheet.Current .standard s.sheet
  lines_eq : s.pending = false → s.sheet.rows.map Row.line = s.editor.lines

namespace UpToDate

variable {s : Session}

/-- After a pass over its text a session is up to date. -/
theorem of_evaluate {sheet : Sheet} (h : Sheet.Current .standard sheet)
    (hsheet : s.sheet = sheet.evaluate s.editor.lines) : s.UpToDate := by
  obtain ⟨hcurrent, hlines⟩ := h.evaluate s.editor.lines
  rw [← hsheet] at hcurrent hlines
  exact ⟨hcurrent, fun _ ↦ hlines⟩

theorem new (text : List Char) (path : Option String) : (new text path).UpToDate :=
  of_evaluate (Sheet.Current.new .standard) rfl

/-- Every event keeps a session up to date. -/
theorem step (h : s.UpToDate) (e : Event) : (s.step e).UpToDate := by
  cases s.change_step e with
  | kept _ _ hlines _ hsheet hpending =>
    refine ⟨hsheet ▸ h.current, fun hnone ↦ ?_⟩
    rw [hsheet, hlines]
    exact h.lines_eq (hpending ▸ hnone)
  | computed _ _ heditor _ hsheet => exact of_evaluate h.current (heditor ▸ hsheet)
  | edited _ _ hsheet hpending =>
    refine ⟨hsheet ▸ h.current, fun hnone ↦ ?_⟩
    rw [hpending] at hnone
    cases hnone
  | written _ heditor _ hsheet hpending =>
    refine ⟨hsheet ▸ h.current, fun hnone ↦ ?_⟩
    rw [hsheet, heditor]
    exact h.lines_eq (hpending ▸ hnone)
  | loaded _ _ _ hsheet => exact of_evaluate (h.current.call .reset) hsheet
  | cleared _ _ hsheet => exact of_evaluate (h.current.call .reset) hsheet

theorem after (text : List Char) (path : Option String) (events : List Event) :
    (after text path events).UpToDate :=
  after_induction text path (P := fun _ s ↦ s.UpToDate) (new text path) (fun _ e h ↦ h.step e)
    events

end UpToDate

variable (text : List Char) (path : Option String) (events : List Event)

/-- Whatever happened to a session, unless a pass is pending its sheet has the outcomes and the
bindings that a new sheet has after a pass over the text. -/
theorem sheet_eq_evaluate_new (h : (after text path events).pending = false) :
    (after text path events).sheet.outcomes =
        ((Sheet.new .standard).evaluate (after text path events).editor.lines).outcomes ∧
      ∀ i, (after text path events).sheet.bindings.at? i =
        ((Sheet.new .standard).evaluate (after text path events).editor.lines).bindings.at? i := by
  obtain ⟨hcurrent, hlines⟩ := UpToDate.after text path events
  obtain ⟨hnew, hlines'⟩ :=
    (Sheet.Current.new .standard).evaluate (after text path events).editor.lines
  exact hcurrent.unique hnew ((hlines h).trans hlines'.symm)

/-- After an edit that a pass follows, and then the opening of a file that is not there, no pass is
pending, and the sheet is that of the edited text. -/
theorem sheet_eq_evaluate_new_edited :
    let replies : FileReplies := ⟨fun _ ↦ .error .notFound, fun _ _ ↦ .ok ()⟩
    let s := after "dim x: 1\nx".toList (some "f")
      [.key ⟨.lineEnd, false⟩ replies, .key ⟨.char '2', false⟩ replies, .pass,
        .key ⟨.char 's', true⟩ replies, .key ⟨.char 'o', true⟩ replies,
        .key ⟨.char 'g', false⟩ replies, .key ⟨.enter, false⟩ replies]
    s.pending = false ∧ s.editor.lines = ["dim x: 12".toList, "x".toList] ∧
      s.sheet.outcomes = ((Sheet.new .standard).evaluate s.editor.lines).outcomes ∧
      ∀ i, s.sheet.bindings.at? i =
        ((Sheet.new .standard).evaluate s.editor.lines).bindings.at? i :=
  ⟨rfl, by decide, sheet_eq_evaluate_new _ _ _ rfl⟩

end Reckoner.Session
