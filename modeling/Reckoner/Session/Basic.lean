import Reckoner.Editor
import Reckoner.Session.File
import Reckoner.Session.Key
import Reckoner.Sheet
import Reckoner.Vocabulary.Standard

/-!
# Sessions

A session is the work on one document: its text, the sheet of its lines, the file it belongs to, and
what is shown about all that. A key changes the session and may ask for a file to be read or
written; the answer changes the session again. After an edit a pass over the sheet is pending, so
that the sheet is behind the text until the pass is made.

Quitting, starting a new document and opening another one would lose unsaved changes. Asked for with
such changes, they only give a warning, and go ahead if the next key asks for the same again.
-/

namespace Reckoner

/-- The actions that would lose unsaved changes. -/
inductive Guarded where
  | quit
  | new
  | opening
deriving DecidableEq, Repr

/-- The warning given before unsaved changes are lost. -/
def Guarded.warning : Guarded → String
  | quit => "Unsaved changes! Press Ctrl-Q again to quit"
  | new => "Unsaved changes! Press Ctrl-N again to discard them"
  | opening => "Unsaved changes! Press Ctrl-O again to open another file"

/-- What a file name is asked for. -/
inductive Purpose where
  | saving
  | opening
deriving DecidableEq, Repr

/-- A file name that is being typed. -/
structure Prompt where
  purpose : Purpose
  input : List Char
deriving DecidableEq, Repr

/-- What the status line shows while a file name is typed. -/
def Prompt.text (prompt : Prompt) : String :=
  (match prompt.purpose with
    | .saving => "Save as: "
    | .opening => "Open: ") ++ String.ofList prompt.input ++ "█"

/-- What the status line says. -/
structure Status where
  message : String
  failed : Bool
deriving DecidableEq, Repr

/-- The work on one document. -/
structure Session where
  editor : Editor
  sheet : Sheet
  /-- The file that the document is saved to. -/
  path : Option String
  /-- Whether there are unsaved changes. -/
  dirty : Bool
  /-- The first line shown. -/
  scroll : Nat
  /-- Whether the sheet has yet to be computed from the text. -/
  pending : Bool
  /-- The action that the last key asked for, if it only gave a warning. -/
  armed : Option Guarded
  prompt : Option Prompt
  /-- Whether the session is over. -/
  quit : Bool
  status : Status

namespace Session

/-- How many lines a page key moves. -/
def pageRows : Nat := 20

/-- Make the pending pass, or one more. -/
def evaluate (s : Session) : Session :=
  { s with pending := false, sheet := s.sheet.evaluate s.editor.lines }

/-- A session on a text, computed once. -/
def new (text : List Char) (path : Option String) : Session :=
  evaluate
    { editor := .ofText text, sheet := .new .standard, path, dirty := false, scroll := 0,
      pending := false, armed := none, prompt := none, quit := false, status := ⟨"Ready!", false⟩ }

/-- Say something that went well. -/
def report (s : Session) (message : String) : Session := { s with status := ⟨message, false⟩ }

/-- Say something that went wrong. -/
def complain (s : Session) (message : String) : Session := { s with status := ⟨message, true⟩ }

/-! ## The document -/

/-- The session after an edit of its text. -/
def edited (s : Session) (editor : Editor) : Session :=
  { s with editor, dirty := true, pending := true }

/-- The session after an edit that there may have been nothing for. -/
def editedIf (s : Session) : Option Editor → Session
  | some editor => s.edited editor
  | none => s

/-- The session after a move of the cursor. -/
def moved (s : Session) (editor : Editor) : Session := { s with editor }

/-- An empty document that has no file. -/
def startNew (s : Session) : Session :=
  let s := { s with editor := .empty, sheet := s.sheet.reset, path := none, dirty := false }
  s.evaluate.report "New document"

/-- The document in a file that was read, if it was. -/
def opened (s : Session) (path : String) : Except FileFault String → Session
  | .ok text =>
    let s := { s with
      editor := .ofText text.toList, sheet := s.sheet.reset, scroll := 0, dirty := false }
    { s.evaluate.report ("Opened " ++ path) with path := some path }
  | .error fault => s.complain ("Cannot open " ++ path ++ ": " ++ fault.message)

/-- The document after it was written to a file, if it was. -/
def saved (s : Session) (path : String) : Except FileFault Unit → Session
  | .ok _ => { s.report ("Saved " ++ path) with dirty := false, path := some path }
  | .error fault => s.complain ("Cannot save: " ++ fault.message)

/-! ## Keys -/

/-- Ask for a file name. -/
def ask (s : Session) (purpose : Purpose) : Session := { s with prompt := some ⟨purpose, []⟩ }

/-- The request to write the document to a file. -/
def saving (s : Session) (path : String) : FileRequest := .write path (String.ofList s.editor.text)

/-- Go ahead with an action if nothing is lost by it or the key before asked for it too; give a
warning otherwise. The session given has nothing armed. -/
def guarded (s : Session) (armed : Option Guarded) (action : Guarded) (go : Session → Session) :
    Session :=
  if !s.dirty || armed = some action then go s
  else { s with armed := some action }.complain action.warning

/-- A key with the control key, and what was armed by the key before. -/
def command (s : Session) (armed : Option Guarded) : KeyCode → Session × Option FileRequest
  | .char 's' | .char 'S' =>
    match s.path with
    | some path => (s, some (s.saving path))
    | none => (s.ask .saving, none)
  | .char 'w' | .char 'W' => (s.ask .saving, none)
  | .char 'o' | .char 'O' => (s.guarded armed .opening (·.ask .opening), none)
  | .char 'n' | .char 'N' => (s.guarded armed .new startNew, none)
  | .char 'q' | .char 'Q' => (s.guarded armed .quit ({ · with quit := true }), none)
  | _ => (s, none)

/-- A key that edits the text or moves the cursor. -/
def edit (s : Session) : KeyCode → Session
  | .char c => s.edited (s.editor.insertChar c)
  | .tab => s.edited (s.editor.insertChar ' ')
  | .enter => s.edited s.editor.insertNewline
  | .backspace => s.editedIf s.editor.backspace?
  | .delete => s.editedIf s.editor.delete?
  | .left => s.moved s.editor.left
  | .right => s.moved s.editor.right
  | .up => s.moved (s.editor.up 1)
  | .down => s.moved (s.editor.down 1)
  | .pageUp => s.moved (s.editor.up pageRows)
  | .pageDown => s.moved (s.editor.down pageRows)
  | .home => s.moved s.editor.home
  | .lineEnd => s.moved s.editor.toLineEnd
  | .escape | .other => s

/-- The file name typed is complete. Without a name nothing is done. -/
def commit (s : Session) (prompt : Prompt) : Session × Option FileRequest :=
  let name := Line.trim prompt.input
  let s := { s with prompt := none }
  if name.isEmpty then (s.report "Cancelled", none)
  else match prompt.purpose with
    | .saving => (s, some (s.saving (String.ofList name)))
    | .opening => (s, some (.read (String.ofList name)))

/-- A key while a file name is typed. -/
def answer (s : Session) (prompt : Prompt) (key : Key) : Session × Option FileRequest :=
  match key.code with
  | .escape => ({ s with prompt := none }.report "Cancelled", none)
  | .enter => s.commit prompt
  | .backspace =>
    ({ s with prompt := some { prompt with input := prompt.input.dropLast } }, none)
  | .char c =>
    if key.control then (s, none)
    else ({ s with prompt := some { prompt with input := prompt.input ++ [c] } }, none)
  | _ => (s, none)

/-- The session after a key, and what the key asks for. -/
def press (s : Session) (key : Key) : Session × Option FileRequest :=
  match s.prompt with
  | some prompt => s.answer prompt key
  | none =>
    let armed := s.armed
    let s := { s with armed := none }
    if key.control then s.command armed key.code else (s.edit key.code, none)

/-! ## Files -/

/-- What comes of requests: the text of a file, or the writing of one. -/
structure FileReplies where
  read : String → Except FileFault String
  write : String → String → Except FileFault Unit

/-- The session after what it asked for was tried. -/
def fulfil (replies : FileReplies) (s : Session) : Option FileRequest → Session
  | none => s
  | some (.read path) => s.opened path (replies.read path)
  | some (.write path text) => s.saved path (replies.write path text)

/-- The session after a key and what comes of it. -/
def pressed (replies : FileReplies) (s : Session) (key : Key) : Session :=
  let (s, request) := s.press key
  s.fulfil replies request

end Session

end Reckoner
