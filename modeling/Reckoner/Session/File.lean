/-!
# Reading and writing files

A session and a command do not touch files. They ask for a file to be read or written, and go on
with what comes of it: the text, or the reason why there is none.
-/

namespace Reckoner

/-- Why a file could not be read or written. -/
inductive FileFault where
  | notFound
  | permissionDenied
  | notADirectory
  | isADirectory
  | nameTooLong
  | nameWithNull
  | invalidText
  /-- Another reason that the system gave, with its number. -/
  | system (reason : String) (code : Nat)
deriving DecidableEq, Repr

namespace FileFault

/-- The reason as the system words it, with its number. -/
def ofSystem (reason : String) (code : Nat) : String :=
  reason ++ " (os error " ++ Nat.repr code ++ ")"

/-- The text shown for the fault. -/
def message : FileFault → String
  | notFound => ofSystem "No such file or directory" 2
  | permissionDenied => ofSystem "Permission denied" 13
  | notADirectory => ofSystem "Not a directory" 20
  | isADirectory => ofSystem "Is a directory" 21
  | nameTooLong => ofSystem "File name too long" 36
  | nameWithNull => "file name contained an unexpected NUL byte"
  | invalidText => "stream did not contain valid UTF-8"
  | system reason code => ofSystem reason code

end FileFault

/-- What a session asks for. -/
inductive FileRequest where
  /-- The text of a file. -/
  | read (path : String)
  /-- A file with this text. -/
  | write (path : String) (text : String)
deriving DecidableEq, Repr

end Reckoner
