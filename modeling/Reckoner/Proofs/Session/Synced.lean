import Reckoner.Proofs.Session.Run

/-!
# Saved texts

A session without unsaved changes says that its text can be had again: it was loaded from a file or
written to one, or it is the empty text that a new document begins with. The text of the last such
moment is kept beside the session here, as a run goes on. Every event that changes the text without
being one of these moments marks the session, so that one without the mark has just that text.
-/

namespace Reckoner.Session

/-- The text that an event leaves nothing to be saved of: that of a document begun anew, or one that
was written to a file or loaded from one. -/
def sync? (s : Session) (e : Event) : Option (List Char) :=
  if s.Clears e then some [] else (s.writes? e).or (s.loads? e)

/-- The text of the last moment in some events that left nothing to be saved, or the text given if
there was none. -/
def synced (s : Session) (text : List Char) : List Event → List Char
  | [] => text
  | e :: rest => (s.step e).synced ((s.sync? e).getD text) rest

/-- The text that a session on a text had when nothing was left to be saved for the last time. -/
def lastSynced (text : List Char) (path : Option String) (events : List Event) : List Char :=
  (new text path).synced (loadedText text) events

/-- If a session without unsaved changes has the text that it had at the last such moment, it does
so after every event. -/
theorem text_step {s : Session} {text : List Char} (h : s.dirty = false → s.editor.text = text)
    (e : Event) (hclean : (s.step e).dirty = false) :
    (s.step e).editor.text = (s.sync? e).getD text := by
  by_cases hclears : s.Clears e
  · rw [sync?, if_pos hclears, hclears.2.2.1]
    rfl
  rw [sync?, if_neg hclears]
  cases s.change_step e with
  | kept hwrites hloads hlines hdirty =>
    rw [hwrites, hloads, Editor.text, hlines]
    exact h (hdirty ▸ hclean)
  | computed hwrites hloads heditor hdirty =>
    rw [hwrites, hloads, heditor]
    exact h (hdirty ▸ hclean)
  | edited _ hdirty =>
    rw [hdirty] at hclean
    cases hclean
  | written hwrites heditor =>
    rw [hwrites, heditor]
    rfl
  | loaded hwrites hloads =>
    rw [hwrites, hloads]
    rfl
  | cleared hclears' => exact absurd hclears' hclears

/-- So it does after any events. -/
theorem text_foldl_step (events : List Event) {s : Session} {text : List Char}
    (h : s.dirty = false → s.editor.text = text) :
    (events.foldl step s).dirty = false →
      (events.foldl step s).editor.text = s.synced text events := by
  induction events generalizing s text with
  | nil => exact h
  | cons e rest ih => exact ih (text_step h e)

/-- A session without unsaved changes has the text that was loaded at its beginning, or since then
written to a file, loaded from one or begun anew, whichever came last. -/
theorem text_eq_lastSynced (text : List Char) (path : Option String) (events : List Event)
    (h : (after text path events).dirty = false) :
    (after text path events).editor.text = lastSynced text path events :=
  text_foldl_step events (fun _ ↦ Editor.text_ofText text) h

/-- A text that was edited and saved, and then kept when another could not be opened, is the one
that was saved last. -/
theorem text_eq_lastSynced_saved :
    let replies : FileReplies := ⟨fun _ ↦ .error .notFound, fun _ _ ↦ .ok ()⟩
    let events : List Event :=
      [.key ⟨.char '2', false⟩ replies, .key ⟨.char 's', true⟩ replies,
        .key ⟨.char 'o', true⟩ replies, .key ⟨.char 'g', false⟩ replies,
        .key ⟨.enter, false⟩ replies]
    (after "1".toList (some "f") events).dirty = false ∧
      lastSynced "1".toList (some "f") events = "21".toList ∧
      (after "1".toList (some "f") events).editor.text =
        lastSynced "1".toList (some "f") events :=
  ⟨rfl, by decide, text_eq_lastSynced _ _ _ rfl⟩

end Reckoner.Session
