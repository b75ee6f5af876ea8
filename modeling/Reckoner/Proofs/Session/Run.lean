import Reckoner.Proofs.Session.Response

/-!
# Runs of a session

A session goes on through keys, passes over its sheet and drawings, in any order, and each key that
asks for a file may be answered in any way. What an event does to the document, to its text, to the
sheet and to what they have to do with each other, is one of six things, and only three of these
make a document that has no unsaved changes: it was written to a file, read from one, or begun anew.
-/

namespace Reckoner

/-- The text that a buffer makes of one that is loaded: each line without a carriage return at its
end. -/
def loadedText (text : List Char) : List Char := joinLines (bufferLines text)

theorem Editor.text_ofText (text : List Char) : (ofText text).text = loadedText text := by
  rw [Editor.text, lines_ofText, loadedText]

namespace Session

/-- What happens to a session. -/
inductive Event where
  /-- A key, with what comes of the request that it may make. -/
  | key (key : Key) (replies : FileReplies)
  /-- A pass over the sheet, pending or not. -/
  | pass
  /-- The session is drawn on a terminal of this size. -/
  | drawing (width height : Nat)

namespace Event

/-- Whether the event is a key. -/
def isKey : Event → Bool
  | .key _ _ => true
  | _ => false

/-- The guarded action that an event asks for where no file name is typed. -/
def guarded? : Event → Option Guarded
  | .key k _ => k.guarded?
  | _ => none

end Event

/-- The session after an event. -/
def step (s : Session) : Event → Session
  | .key key replies => s.pressed replies key
  | .pass => s.evaluate
  | .drawing width height => (s.draw width height).1

/-- A session on a text after some events. -/
def after (text : List Char) (path : Option String) (events : List Event) : Session :=
  events.foldl step (new text path)

theorem after_concat (text : List Char) (path : Option String) (past : List Event) (e : Event) :
    after text path (past ++ [e]) = (after text path past).step e := by
  simp [after]

/-- What holds of a new session, and is kept by every event that may come next, holds after any
events. -/
theorem after_induction (text : List Char) (path : Option String)
    {P : List Event → Session → Prop} (start : P [] (new text path))
    (step : ∀ past e, P past (after text path past) →
      P (past ++ [e]) ((after text path past).step e)) (events : List Event) :
    P events (after text path events) := by
  have run : ∀ rest past, P past (after text path past) →
      P (past ++ rest) (after text path (past ++ rest)) := by
    intro rest
    induction rest with
    | nil => simp
    | cons e rest ih =>
      intro past h
      have hnext := step past e h
      rw [← after_concat] at hnext
      simpa using ih (past ++ [e]) hnext
  exact run events [] start

/-! ## Documents and files -/

/-- The text that an event writes to a file. -/
def writes? (s : Session) : Event → Option (List Char)
  | .key key replies =>
    match (s.press key).2 with
    | some (.write path text) => (replies.write path text).toOption.map fun _ ↦ text.toList
    | _ => none
  | _ => none

/-- The text that an event loads from a file. -/
def loads? (s : Session) : Event → Option (List Char)
  | .key key replies =>
    match (s.press key).2 with
    | some (.read path) => (replies.read path).toOption.map fun text ↦ loadedText text.toList
    | _ => none
  | _ => none

/-- The document is an empty one that has no file and no changes. -/
def IsNew (s : Session) : Prop := s.editor = .empty ∧ s.path = none ∧ s.dirty = false

instance (s : Session) : Decidable s.IsNew := inferInstanceAs (Decidable (_ ∧ _ ∧ _))

/-- An event asks for a new document where no file name is typed, and gives one. -/
def Clears (s : Session) (e : Event) : Prop :=
  s.prompt = none ∧ e.guarded? = some .new ∧ (s.step e).IsNew

instance (s : Session) (e : Event) : Decidable (s.Clears e) :=
  inferInstanceAs (Decidable (_ ∧ _ ∧ _))

/-- An event is a key that belongs to the text: no file name is typed, and the control key is not
held down. -/
def Edits (s : Session) (e : Event) : Prop :=
  s.prompt = none ∧ ∃ key replies, e = .key key replies ∧ key.control = false

/-- What an event may do to the document and the sheet. -/
inductive Change (s : Session) (e : Event) (s' : Session) : Prop
  /-- Nothing, but for where the cursor is. -/
  | kept (hwrites : s.writes? e = none) (hloads : s.loads? e = none)
      (hlines : s'.editor.lines = s.editor.lines) (hdirty : s'.dirty = s.dirty)
      (hsheet : s'.sheet = s.sheet) (hpending : s'.pending = s.pending)
  /-- The sheet is computed from the text. -/
  | computed (hwrites : s.writes? e = none) (hloads : s.loads? e = none)
      (heditor : s'.editor = s.editor) (hdirty : s'.dirty = s.dirty)
      (hsheet : s'.sheet = s.sheet.evaluate s.editor.lines) (hpending : s'.pending = false)
  /-- The text is edited, so that there are unsaved changes and a pass is pending. -/
  | edited (hedits : s.Edits e) (hdirty : s'.dirty = true) (hsheet : s'.sheet = s.sheet)
      (hpending : s'.pending = true)
  /-- The text is written to a file. -/
  | written (hwrites : s.writes? e = some s.editor.text) (heditor : s'.editor = s.editor)
      (hdirty : s'.dirty = false) (hsheet : s'.sheet = s.sheet) (hpending : s'.pending = s.pending)
  /-- Another text is loaded from a file. -/
  | loaded (hwrites : s.writes? e = none) (hloads : s.loads? e = some s'.editor.text)
      (hdirty : s'.dirty = false) (hsheet : s'.sheet = s.sheet.reset.evaluate s'.editor.lines)
      (hpending : s'.pending = false)
  /-- A new document takes the place of this one. -/
  | cleared (hclears : s.Clears e) (hdirty : s'.dirty = false)
      (hsheet : s'.sheet = s.sheet.reset.evaluate s'.editor.lines) (hpending : s'.pending = false)

variable {s : Session} {key : Key} (replies : FileReplies)

theorem pressed_eq {s₁ : Session} {request : Option FileRequest}
    (hpress : s.press key = (s₁, request)) :
    s.pressed replies key = s₁.fulfil replies request := by
  rw [pressed, hpress]

theorem writes?_write {s₁ : Session} {path text : String}
    (hpress : s.press key = (s₁, some (.write path text))) :
    s.writes? (.key key replies) = (replies.write path text).toOption.map fun _ ↦ text.toList := by
  simp only [writes?, hpress]

theorem loads?_read {s₁ : Session} {path : String}
    (hpress : s.press key = (s₁, some (.read path))) :
    s.loads? (.key key replies) =
      (replies.read path).toOption.map fun text ↦ loadedText text.toList := by
  simp only [loads?, hpress]

/-- A key that asks for no file to be written writes none. -/
theorem writes?_eq_none {s₁ : Session} {request : Option FileRequest}
    (hpress : s.press key = (s₁, request))
    (hrequest : ∀ path text, request ≠ some (.write path text)) :
    s.writes? (.key key replies) = none := by
  simp only [writes?, hpress]

/-- A key that asks for no file to be read loads none. -/
theorem loads?_eq_none {s₁ : Session} {request : Option FileRequest}
    (hpress : s.press key = (s₁, request)) (hrequest : ∀ path, request ≠ some (.read path)) :
    s.loads? (.key key replies) = none := by
  simp only [loads?, hpress]

/-- What writing the document changes: nothing, unless it succeeds. -/
theorem change_write {s₁ : Session} {path : String}
    (hpress : s.press key = (s₁, some (s.saving path))) (heditor : s₁.editor = s.editor)
    (hdirty : s₁.dirty = s.dirty) (hsheet : s₁.sheet = s.sheet)
    (hpending : s₁.pending = s.pending) :
    Change s (.key key replies) (s.pressed replies key) := by
  have hwrites := writes?_write replies hpress
  have hloads : s.loads? (.key key replies) = none :=
    loads?_eq_none replies hpress fun _ ↦ by simp [saving]
  rw [pressed_eq replies hpress, saving, fulfil]
  cases hreply : replies.write path (String.ofList s.editor.text) with
  | error =>
    rw [hreply] at hwrites
    exact .kept hwrites hloads (congrArg Editor.lines heditor) hdirty hsheet hpending
  | ok =>
    rw [hreply] at hwrites
    refine .written (hwrites.trans ?_) heditor rfl hsheet hpending
    simp [Except.toOption]

/-- What opening a document changes: nothing, unless it succeeds. -/
theorem change_read {s₁ : Session} {path : String}
    (hpress : s.press key = (s₁, some (.read path))) (heditor : s₁.editor = s.editor)
    (hdirty : s₁.dirty = s.dirty) (hsheet : s₁.sheet = s.sheet)
    (hpending : s₁.pending = s.pending) :
    Change s (.key key replies) (s.pressed replies key) := by
  have hwrites : s.writes? (.key key replies) = none :=
    writes?_eq_none replies hpress fun _ _ ↦ by simp
  have hloads := loads?_read replies hpress
  rw [pressed_eq replies hpress, fulfil]
  cases hreply : replies.read path with
  | error =>
    rw [hreply] at hloads
    exact .kept hwrites hloads (congrArg Editor.lines heditor) hdirty hsheet hpending
  | ok text =>
    rw [hreply] at hloads
    refine .loaded hwrites (hloads.trans ?_) rfl ?_ rfl
    · exact congrArg some (Editor.text_ofText text.toList).symm
    · rw [← hsheet]
      rfl

/-- What a key changes that asks for no file and leaves the text alone. -/
theorem change_kept {s₁ : Session} (hpress : s.press key = (s₁, none))
    (hlines : s₁.editor.lines = s.editor.lines) (hdirty : s₁.dirty = s.dirty)
    (hsheet : s₁.sheet = s.sheet) (hpending : s₁.pending = s.pending) :
    Change s (.key key replies) (s.pressed replies key) := by
  rw [pressed_eq replies hpress, fulfil]
  exact .kept (writes?_eq_none replies hpress fun _ _ ↦ nofun)
    (loads?_eq_none replies hpress fun _ ↦ nofun) hlines hdirty hsheet hpending

/-- What a guarded action changes that goes ahead. -/
theorem change_granted {action : Guarded} (hprompt : s.prompt = none)
    (hkey : key.guarded? = some action)
    (hpress : s.press key = ({ s with armed := none }.goAhead action, none)) :
    Change s (.key key replies) (s.pressed replies key) := by
  cases action with
  | quit => exact change_kept replies hpress rfl rfl rfl rfl
  | opening => exact change_kept replies hpress rfl rfl rfl rfl
  | new =>
    have hstep : s.pressed replies key = { s with armed := none }.startNew :=
      pressed_eq replies hpress
    have hclears : s.Clears (.key key replies) := by
      refine ⟨hprompt, hkey, ?_⟩
      rw [step, hstep]
      exact ⟨rfl, rfl, rfl⟩
    rw [hstep]
    exact .cleared hclears rfl rfl rfl

/-- Every event changes the document and the sheet in one of these ways. -/
theorem change_step (s : Session) (e : Event) : Change s e (s.step e) := by
  cases e with
  | pass => exact .computed rfl rfl rfl rfl rfl rfl
  | drawing width height => exact .kept rfl rfl rfl rfl rfl rfl
  | key key replies =>
    rw [step]
    have hresponse := s.response_press key
    generalize hpress : s.press key = result at hresponse
    cases hresponse with
    | named => exact change_write replies hpress rfl rfl rfl rfl
    | saved => exact change_write replies hpress rfl rfl rfl rfl
    | chosen => exact change_read replies hpress rfl rfl rfl rfl
    | granted hprompt hkey => exact change_granted replies hprompt hkey hpress
    | edited hprompt hcontrol =>
      rw [pressed_eq replies hpress, fulfil]
      exact .edited ⟨hprompt, key, replies, rfl, hcontrol⟩ rfl rfl rfl
    | moved _ _ hlines => exact change_kept replies hpress hlines rfl rfl rfl
    | typed => exact change_kept replies hpress rfl rfl rfl rfl
    | cancelled => exact change_kept replies hpress rfl rfl rfl rfl
    | asked => exact change_kept replies hpress rfl rfl rfl rfl
    | warned => exact change_kept replies hpress rfl rfl rfl rfl
    | ignored => exact change_kept replies hpress rfl rfl rfl rfl

end Session

end Reckoner
