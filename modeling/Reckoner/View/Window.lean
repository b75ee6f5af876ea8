import Reckoner.Session.Basic
import Reckoner.View.Page
import Reckoner.View.StatusBar

/-!
# The window of a session

The page of the sheet above the status bar. The lines take about two thirds of the width.
-/

namespace Reckoner

/-- What is on a terminal: a picture and the column and row of the cursor. -/
structure Screen where
  picture : Picture
  cursor : Nat × Nat

namespace Session

/-- The name shown for the document. -/
def fileName (s : Session) : String := s.path.getD "untitled"

/-- What the status bar shows: the file name that is being typed, if one is. -/
def statusBar (s : Session) : StatusBar :=
  let status : Status := match s.prompt with
    | some prompt => ⟨prompt.text, false⟩
    | none => s.status
  { file := s.fileName, message := status.message, dirty := s.dirty, failed := status.failed
    pending := s.pending, faultCount := s.sheet.faultCount }

/-- The columns of the lines in a window of a width: 65 of 100, rounded. -/
def leftColumns (width : Nat) : Nat := (65 * width + 50) / 100

/-- Draw the session on a terminal. The page scrolls to the cursor. -/
def draw (s : Session) (width height : Nat) : Session × Screen :=
  let left := leftColumns width
  let page := Page.view left (width - left) (height - 1) s.scroll s.editor.lines
    s.sheet.outcomes s.editor.row s.editor.column
  let bar := s.statusBar.view width
  ({ s with scroll := page.offset },
    { picture := { page.picture.above bar with height := height }, cursor := page.cursor })

/-- One turn of the session on a terminal: make the pending pass if it is due, then draw. -/
def turn (s : Session) (isDue : Bool) (width height : Nat) : Session × Screen :=
  (if s.pending && isDue then s.evaluate else s).draw width height

end Session

end Reckoner
