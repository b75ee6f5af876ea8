import Reckoner.Proofs.Session.Run
import Reckoner.Session.InFolder

/-!
# Prompts and failures

While a file name is typed the document is out of reach: a key changes the name and the status line
only. The one key that does more is the one that completes a name, since a file is read or written
then. If that fails, or if saving to the file of the document fails, the session says so and is
otherwise what it was. So a dialogue in which nothing succeeds, however long, leaves no trace but
what the status line says.
-/

namespace Reckoner

/-- The name that was typed, without the blanks around it, if anything is left of it. -/
def Prompt.name? (prompt : Prompt) : Option String :=
  let name := Line.trim prompt.input
  if name.isEmpty then none else some (String.ofList name)

/-- A key that saves the document to its file. -/
def Key.IsSave (key : Key) : Prop :=
  key.control = true ∧ (key.code = .char 's' ∨ key.code = .char 'S')

instance (key : Key) : Decidable key.IsSave := inferInstanceAs (Decidable (_ ∧ _))

namespace Session

variable {s : Session} {key : Key} {path : String}

/-- The name that a key completes, and what the name is for. -/
def completes? (s : Session) (key : Key) : Option (Purpose × String) :=
  s.prompt.bind fun prompt ↦
    if key.code = .enter then prompt.name?.map fun name ↦ (prompt.purpose, name) else none

/-- What is asked for with a name. -/
def requested (s : Session) : Purpose → String → FileRequest
  | .saving, name => s.saving name
  | .opening, name => .read name

/-! ## Keys that complete a name, and others -/

theorem completes?_of_prompt {prompt : Prompt} (hprompt : s.prompt = some prompt) :
    s.completes? key =
      if key.code = .enter then prompt.name?.map fun name ↦ (prompt.purpose, name) else none := by
  rw [completes?, hprompt, Option.bind_some]

/-- A name is completed by the enter key, at a prompt with the name in it. -/
theorem exists_of_completes? {purpose : Purpose} {name : String}
    (h : s.completes? key = some (purpose, name)) :
    ∃ prompt, s.prompt = some prompt ∧ prompt.purpose = purpose ∧ key.code = .enter ∧
      prompt.name? = some name := by
  obtain ⟨prompt, hprompt, hname⟩ := Option.bind_eq_some_iff.mp h
  split at hname
  · rename_i hcode
    obtain ⟨name', hname, hpair⟩ := Option.map_eq_some_iff.mp hname
    cases hpair
    exact ⟨prompt, hprompt, rfl, hcode, hname⟩
  · cases hname

/-- What comes of the enter key at a prompt is a matter of the name. -/
theorem commit_eq (s : Session) (prompt : Prompt) :
    s.commit prompt = match prompt.name? with
      | none => ({ s with prompt := none }.report "Cancelled", none)
      | some name => ({ s with prompt := none }, some (s.requested prompt.purpose name)) := by
  rw [commit, Prompt.name?]
  split
  · rfl
  · cases prompt.purpose <;> rfl

/-- With a name that is complete its file is asked for, and no name is typed any more. -/
theorem press_of_completes? {purpose : Purpose} {name : String}
    (h : s.completes? key = some (purpose, name)) :
    s.press key = ({ s with prompt := none }, some (s.requested purpose name)) := by
  obtain ⟨prompt, hprompt, rfl, hcode, hname⟩ := exists_of_completes? h
  simp only [press, hprompt, answer, hcode, commit_eq, hname]

/-- Any other key changes nothing but the name, and the status line if it ends the prompt. -/
theorem press_of_completes?_eq_none {prompt : Prompt} (hprompt : s.prompt = some prompt)
    (h : s.completes? key = none) :
    ∃ prompt status, s.press key = ({ s with prompt, status }, none) := by
  have hpress : s.press key = s.answer prompt key := by simp only [press, hprompt]
  rw [hpress, answer]
  split
  · exact ⟨none, _, rfl⟩
  · rename_i hcode
    rw [completes?_of_prompt hprompt, if_pos hcode, Option.map_eq_none_iff] at h
    rw [commit_eq, h]
    exact ⟨none, _, rfl⟩
  · exact ⟨some _, s.status, rfl⟩
  · split
    · exact ⟨s.prompt, s.status, rfl⟩
    · exact ⟨some _, s.status, rfl⟩
  · exact ⟨s.prompt, s.status, rfl⟩

/-- The document is saved to its file by a key. -/
theorem press_of_isSave (hprompt : s.prompt = none) (hkey : key.IsSave)
    (hpath : s.path = some path) :
    s.press key = ({ s with armed := none }, some (s.saving path)) := by
  obtain ⟨code, control⟩ := key
  obtain ⟨rfl, rfl | rfl⟩ := hkey <;> simp [press, hprompt, command, hpath, saving]

/-! ## Dialogues -/

/-- Two sessions differ in the file name that is typed and in the status line, if at all. -/
def Spared (s s' : Session) : Prop := ∃ prompt status, s' = { s with prompt, status }

theorem Spared.refl (s : Session) : s.Spared s := ⟨s.prompt, s.status, rfl⟩

theorem Spared.trans {s₁ s₂ s₃ : Session} (h : s₁.Spared s₂) (h' : s₂.Spared s₃) :
    s₁.Spared s₃ := by
  obtain ⟨_, _, rfl⟩ := h
  obtain ⟨prompt, status, rfl⟩ := h'
  exact ⟨prompt, status, rfl⟩

/-- Some events are a dialogue that comes to nothing: keys at an open prompt, by which no file is
written and none is loaded. -/
def Converses (s : Session) : List Event → Prop
  | [] => True
  | e :: rest => s.prompt.isSome = true ∧ e.isKey = true ∧ s.writes? e = none ∧
      s.loads? e = none ∧ (s.step e).Converses rest

/-- What is asked for with a name spares the session unless it succeeds. -/
theorem spared_of_completes? {replies : FileReplies} {purpose : Purpose} {name : String}
    (h : s.completes? key = some (purpose, name)) (hwrites : s.writes? (.key key replies) = none)
    (hloads : s.loads? (.key key replies) = none) : s.Spared (s.pressed replies key) := by
  have hpress := press_of_completes? h
  rw [pressed_eq replies hpress]
  cases purpose with
  | saving =>
    rw [writes?_write replies hpress] at hwrites
    rw [requested, saving, fulfil]
    cases hreply : replies.write name (String.ofList s.editor.text) with
    | error => exact ⟨none, _, rfl⟩
    | ok =>
      rw [hreply] at hwrites
      cases hwrites
  | opening =>
    rw [loads?_read replies hpress] at hloads
    rw [requested, fulfil]
    cases hreply : replies.read name with
    | error => exact ⟨none, _, rfl⟩
    | ok =>
      rw [hreply] at hloads
      cases hloads

/-- A key that completes no name asks for no file, and it spares the session. -/
theorem spared_of_completes?_eq_none (replies : FileReplies) (hopen : s.prompt.isSome = true)
    (h : s.completes? key = none) : (s.press key).2 = none ∧ s.Spared (s.pressed replies key) := by
  obtain ⟨prompt, hprompt⟩ := Option.isSome_iff_exists.mp hopen
  obtain ⟨prompt', status, hpress⟩ := press_of_completes?_eq_none hprompt h
  rw [pressed_eq replies hpress, hpress]
  exact ⟨rfl, prompt', status, rfl⟩

/-- So every key at an open prompt spares the session unless a file is written or loaded by it. -/
theorem spared_step {e : Event} (hopen : s.prompt.isSome = true) (hkey : e.isKey = true)
    (hwrites : s.writes? e = none) (hloads : s.loads? e = none) : s.Spared (s.step e) := by
  cases e with
  | pass => cases hkey
  | drawing => cases hkey
  | key key replies =>
    rw [step]
    cases h : s.completes? key with
    | some completed => exact spared_of_completes? h hwrites hloads
    | none => exact (spared_of_completes?_eq_none replies hopen h).2

theorem Converses.spared {events : List Event} (h : s.Converses events) :
    s.Spared (events.foldl step s) := by
  induction events generalizing s with
  | nil => exact .refl s
  | cons e rest ih =>
    obtain ⟨hopen, hkey, hwrites, hloads, hrest⟩ := h
    exact (spared_step hopen hkey hwrites hloads).trans (ih hrest)

/-! ## The whole of it -/

/-- What prompts and failures do to a session, whatever comes of its requests. -/
structure Spares (s : Session) : Prop where
  /-- A key that completes no name changes the name and the status line, and asks for no file. -/
  typed : ∀ replies key, s.prompt.isSome = true → s.completes? key = none →
    (s.press key).2 = none ∧ ∃ prompt status, s.pressed replies key = { s with prompt, status }
  /-- If the file of a name cannot be opened, the prompt ends and the status line says so. -/
  unopened : ∀ replies key name fault, s.completes? key = some (.opening, name) →
    replies.read name = .error fault →
    s.pressed replies key =
      { s with prompt := none, status := ⟨"Cannot open " ++ name ++ ": " ++ fault.message, true⟩ }
  /-- So it is if the document cannot be saved under a name. -/
  unnamed : ∀ replies key name fault, s.completes? key = some (.saving, name) →
    replies.write name (String.ofList s.editor.text) = .error fault →
    s.pressed replies key =
      { s with prompt := none, status := ⟨"Cannot save: " ++ fault.message, true⟩ }
  /-- If it cannot be saved to its file, the status line says so, and what was armed is forgotten as
  with every key. -/
  unsaved : ∀ replies key path fault, s.prompt = none → key.IsSave → s.path = some path →
    replies.write path (String.ofList s.editor.text) = .error fault →
    s.pressed replies key =
      { s with armed := none, status := ⟨"Cannot save: " ++ fault.message, true⟩ }
  /-- A document that was saved under a name has this name and no unsaved changes. -/
  named : ∀ replies key name, s.completes? key = some (.saving, name) →
    replies.write name (String.ofList s.editor.text) = .ok () →
    s.pressed replies key =
      { s with
        prompt := none, path := some name, dirty := false, status := ⟨"Saved " ++ name, false⟩ }
  /-- A dialogue that comes to nothing leaves no trace but on the status line. -/
  dialogue : ∀ events, s.Converses events →
    ∃ prompt status, events.foldl step s = { s with prompt, status }

/-- In every session prompts and failures leave the document alone. -/
theorem spares (s : Session) : Spares s where
  typed replies key hopen h := spared_of_completes?_eq_none replies hopen h
  unopened replies key name fault h hreply := by
    rw [pressed_eq replies (press_of_completes? h), requested, fulfil, hreply]
    rfl
  unnamed replies key name fault h hreply := by
    rw [pressed_eq replies (press_of_completes? h), requested, saving, fulfil, hreply]
    rfl
  unsaved replies key path fault hprompt hkey hpath hreply := by
    rw [pressed_eq replies (press_of_isSave hprompt hkey hpath), saving, fulfil, hreply]
    rfl
  named replies key name h hreply := by
    rw [pressed_eq replies (press_of_completes? h), requested, saving, fulfil, hreply]
    rfl
  dialogue events h := h.spared

/-- An edited document stays as it is when a folder, a file that is no text and a file that is not
there are opened, one after the other. -/
theorem spares_unreadable :
    let folder : Folder := ⟨[(["bytes"], ⟨#[0xFF]⟩)], [["folder"]]⟩
    let s := after "1".toList (some "f") [.key ⟨.char '2', false⟩ folder.replies]
    let opening (name : String) : Session := { s with prompt := some ⟨.opening, name.toList⟩ }
    let opened (name : String) : Session := (opening name).pressed folder.replies ⟨.enter, false⟩
    s.dirty = true ∧
      opened " folder" =
        { s with status := ⟨"Cannot open folder: Is a directory (os error 21)", true⟩ } ∧
      opened "bytes" =
        { s with status := ⟨"Cannot open bytes: stream did not contain valid UTF-8", true⟩ } ∧
      opened "missing" =
        { s with
          status := ⟨"Cannot open missing: No such file or directory (os error 2)", true⟩ } := by
  intro folder s opening opened
  refine ⟨rfl, ?_, ?_, ?_⟩
  · exact (spares (opening " folder")).unopened _ _ "folder" .isADirectory rfl rfl
  · exact (spares (opening "bytes")).unopened _ _ "bytes" .invalidText rfl rfl
  · exact (spares (opening "missing")).unopened _ _ "missing" .notFound rfl rfl

end Session

end Reckoner
