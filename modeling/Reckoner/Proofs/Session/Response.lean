import Reckoner.Proofs.Editor.Buffer
import Reckoner.View.Window

/-!
# What a key can do

A key is read in one of two ways. While a file name is typed it belongs to the name, and otherwise
it is a command or an edit of the text. Here the responses are listed once, each with what has to
hold for it and with the session and the request that come of it. What is to hold of a session
through all keys is then a matter of these cases alone.
-/

namespace Reckoner

/-- The guarded action that a key asks for where no file name is typed. -/
def Key.guarded? (key : Key) : Option Guarded :=
  if key.control then
    match key.code with
    | .char 'o' | .char 'O' => some .opening
    | .char 'n' | .char 'N' => some .new
    | .char 'q' | .char 'Q' => some .quit
    | _ => none
  else none

/-- Without the control key no guarded action is asked for. -/
theorem Key.guarded?_eq_none {key : Key} (hcontrol : key.control = false) :
    key.guarded? = none := by
  simp [guarded?, hcontrol]

namespace Session

/-- The session that a guarded action leads to if it goes ahead. -/
def goAhead (s : Session) : Guarded → Session
  | .quit => { s with quit := true }
  | .new => s.startNew
  | .opening => s.ask .opening

/-- What may come of a key: the session after it, and what it asks for. -/
inductive Response (s : Session) (key : Key) : Session × Option FileRequest → Prop
  /-- The file name being typed is another one, or the key means nothing to it. -/
  | typed {prompt : Prompt} (hprompt : s.prompt = some prompt) (input : List Char)
      (hcode : key.code ≠ .enter) :
      Response s key ({ s with prompt := some { prompt with input } }, none)
  /-- There is to be no file name. -/
  | cancelled {prompt : Prompt} (hprompt : s.prompt = some prompt) :
      Response s key ({ s with prompt := none }.report "Cancelled", none)
  /-- The document is to be saved under the name that was typed. -/
  | named {prompt : Prompt} (hprompt : s.prompt = some prompt) (hcode : key.code = .enter)
      (hpurpose : prompt.purpose = .saving) (hname : (Line.trim prompt.input).isEmpty = false) :
      Response s key ({ s with prompt := none },
        some (s.saving (String.ofList (Line.trim prompt.input))))
  /-- The document with the name that was typed is to be opened. -/
  | chosen {prompt : Prompt} (hprompt : s.prompt = some prompt) (hcode : key.code = .enter)
      (hpurpose : prompt.purpose = .opening) (hname : (Line.trim prompt.input).isEmpty = false) :
      Response s key ({ s with prompt := none },
        some (.read (String.ofList (Line.trim prompt.input))))
  /-- The document is to be saved to its file. -/
  | saved {path : String} (hprompt : s.prompt = none) (hkey : key.guarded? = none)
      (hpath : s.path = some path) :
      Response s key ({ s with armed := none }, some (s.saving path))
  /-- A name to save under is asked for. -/
  | asked (hprompt : s.prompt = none) (hkey : key.guarded? = none) :
      Response s key ({ s with armed := none }.ask .saving, none)
  /-- A guarded action gave a warning. -/
  | warned {action : Guarded} (hprompt : s.prompt = none) (hkey : key.guarded? = some action)
      (hdirty : s.dirty = true) (harmed : s.armed ≠ some action) :
      Response s key ({ s with armed := some action }.complain action.warning, none)
  /-- A guarded action went ahead. -/
  | granted {action : Guarded} (hprompt : s.prompt = none) (hkey : key.guarded? = some action)
      (hgo : s.dirty = false ∨ s.armed = some action) :
      Response s key ({ s with armed := none }.goAhead action, none)
  /-- The text was edited. -/
  | edited (hprompt : s.prompt = none) (hcontrol : key.control = false) (editor : Editor) :
      Response s key ({ s with armed := none }.edited editor, none)
  /-- The cursor went to another place, or stayed where it was. -/
  | moved (hprompt : s.prompt = none) (hcontrol : key.control = false) {editor : Editor}
      (hlines : editor.lines = s.editor.lines) :
      Response s key ({ s with armed := none, editor }, none)
  /-- The key means nothing. -/
  | ignored (hprompt : s.prompt = none) (hkey : key.guarded? = none) :
      Response s key ({ s with armed := none }, none)

variable {s : Session} {key : Key}

/-- A guarded action gives a warning or goes ahead. -/
theorem response_guarded {action : Guarded} (hprompt : s.prompt = none)
    (hkey : key.guarded? = some action) :
    Response s key ({ s with armed := none }.guarded s.armed action (·.goAhead action), none) := by
  rw [guarded]
  split
  · rename_i hgo
    refine .granted hprompt hkey ?_
    simpa using hgo
  · rename_i hstop
    simp only [Bool.or_eq_true, Bool.not_eq_true', decide_eq_true_eq, not_or,
      Bool.not_eq_false] at hstop
    exact .warned hprompt hkey hstop.1 hstop.2

/-- What comes of a key with the control key. -/
theorem response_command (hprompt : s.prompt = none) (hcontrol : key.control = true) :
    Response s key ({ s with armed := none }.command s.armed key.code) := by
  obtain ⟨code, control⟩ := key
  subst hcontrol
  simp only
  unfold command
  -- Each letter comes twice, small and capital.
  split
  iterate 2
    split
    · exact .saved hprompt rfl ‹_›
    · exact .asked hprompt rfl
  iterate 2 exact .asked hprompt rfl
  iterate 6 exact response_guarded hprompt rfl
  refine .ignored hprompt ?_
  simp only [Key.guarded?, if_true]

/-- What comes of an edit that there may have been nothing for. -/
theorem response_editedIf (hprompt : s.prompt = none) (hcontrol : key.control = false)
    (editor? : Option Editor) :
    Response s key ({ s with armed := none }.editedIf editor?, none) := by
  cases editor? with
  | none => exact .ignored hprompt (Key.guarded?_eq_none hcontrol)
  | some editor => exact .edited hprompt hcontrol editor

/-- What comes of a key without the control key. -/
theorem response_edit (hprompt : s.prompt = none) (hcontrol : key.control = false) :
    Response s key ({ s with armed := none }.edit key.code, none) := by
  cases key.code with
  | char c => exact .edited hprompt hcontrol _
  | tab => exact .edited hprompt hcontrol _
  | enter => exact .edited hprompt hcontrol _
  | backspace => exact response_editedIf hprompt hcontrol _
  | delete => exact response_editedIf hprompt hcontrol _
  | left => exact .moved hprompt hcontrol s.editor.lines_left
  | right => exact .moved hprompt hcontrol s.editor.lines_right
  | up => exact .moved hprompt hcontrol (s.editor.movedTo_up 1).lines_eq
  | down => exact .moved hprompt hcontrol (s.editor.movedTo_down 1).lines_eq
  | pageUp => exact .moved hprompt hcontrol (s.editor.movedTo_up pageRows).lines_eq
  | pageDown => exact .moved hprompt hcontrol (s.editor.movedTo_down pageRows).lines_eq
  | home => exact .moved hprompt hcontrol s.editor.movedTo_home.lines_eq
  | lineEnd => exact .moved hprompt hcontrol s.editor.movedTo_toLineEnd.lines_eq
  | escape => exact .ignored hprompt (Key.guarded?_eq_none hcontrol)
  | other => exact .ignored hprompt (Key.guarded?_eq_none hcontrol)

/-- What comes of a file name that is complete. -/
theorem response_commit {prompt : Prompt} (hprompt : s.prompt = some prompt)
    (hcode : key.code = .enter) : Response s key (s.commit prompt) := by
  simp only [commit]
  split
  · exact .cancelled hprompt
  · rename_i hname
    have hname := Bool.eq_false_iff.mpr hname
    split
    · exact .named hprompt hcode ‹_› hname
    · exact .chosen hprompt hcode ‹_› hname

/-- What comes of a key while a file name is typed. -/
theorem response_answer {prompt : Prompt} (hprompt : s.prompt = some prompt) :
    Response s key (s.answer prompt key) := by
  have hsame (hcode : key.code ≠ .enter) : Response s key (s, none) := by
    have h := Response.typed hprompt prompt.input hcode
    rwa [← hprompt] at h
  rw [answer]
  split
  · exact .cancelled hprompt
  · exact response_commit hprompt ‹_›
  · exact .typed hprompt _ (by simp_all)
  · split
    · exact hsame (by simp_all)
    · exact .typed hprompt _ (by simp_all)
  · exact hsame ‹_›

/-- Every key has one of the responses. -/
theorem response_press (s : Session) (key : Key) : Response s key (s.press key) := by
  unfold press
  split
  · exact response_answer ‹_›
  · rename_i hprompt
    split
    · exact response_command hprompt ‹_›
    · exact response_edit hprompt (Bool.eq_false_iff.mpr ‹_›)

end Session

end Reckoner
