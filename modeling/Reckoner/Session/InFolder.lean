import Reckoner.CommandLine
import Reckoner.Session.Basic
import Reckoner.Session.Folder

/-!
# Sessions and commands in a folder

What a session or a command asks of its files is done in a folder in memory, at once.
-/

namespace Reckoner

/-- What comes of requests in a folder. -/
def Folder.replies (folder : Folder) : Session.FileReplies where
  read := folder.read
  write path text := (folder.write path text).map fun _ ↦ ()

/-- The folder after a request. One that cannot be fulfilled changes nothing. -/
def Folder.after (folder : Folder) : Option FileRequest → Folder
  | some (.write path text) => (folder.write path text).toOption.getD folder
  | _ => folder

/-- A session after a key, and the folder after what the key asked for. -/
def Session.pressIn (s : Session) (folder : Folder) (key : Key) : Session × Folder :=
  (s.pressed folder.replies key, folder.after (s.press key).2)

/-- The files of a folder and a standard input. -/
def Folder.actions (input : String) : FileActions (StateM Folder) where
  create path := modifyGet fun folder ↦
    match folder.write path "" with
    | .ok folder => (.ok (), folder)
    | .error fault => (.error fault, folder)
  read path := return (← get).read path
  input := return .ok input

/-- A command in a folder, and the folder after it. -/
def Command.executeIn (command : Command) (folder : Folder) (input : String) :
    Finished × Folder :=
  (command.execute (Folder.actions input)).run folder

end Reckoner
