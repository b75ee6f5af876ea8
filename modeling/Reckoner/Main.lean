import Reckoner.CommandLine

/-!
# The program
-/

namespace Reckoner

/-- The reason with a number of the system, which may come with a minus sign, in the system's words
if it is no reason of its own. -/
def faultOfCode (code : UInt32) (reason : String) : FileFault :=
  match min code.toNat (-code).toNat with
  | 2 => .notFound
  | 13 => .permissionDenied
  | 20 => .notADirectory
  | 21 => .isADirectory
  | 36 => .nameTooLong
  | number => .system reason number

/-- The reason behind a failure of the system. -/
def faultOf : IO.Error → FileFault
  | .noFileOrDirectory _ code reason => faultOfCode code reason
  | .inappropriateType _ code reason => faultOfCode code reason
  | .permissionDenied _ code reason => faultOfCode code reason
  | .invalidArgument _ code reason => faultOfCode code reason
  | .noSuchThing _ code reason => faultOfCode code reason
  | .otherError code reason => faultOfCode code reason
  | e => .system (toString e) 5

/-- The text that some bytes encode. -/
def textOf (bytes : ByteArray) : Except FileFault String :=
  match String.fromUTF8? bytes with
  | some text => .ok text
  | none => .error .invalidText

/-- The files and streams of the system. -/
def systemActions : FileActions IO where
  create path := try .ok <$> IO.FS.writeFile path "" catch e => pure (.error (faultOf e))
  read path := try textOf <$> IO.FS.readBinFile path catch e => pure (.error (faultOf e))
  input := do
    let stdin ← IO.getStdin
    try textOf <$> stdin.readBinToEnd catch e => pure (.error (faultOf e))

end Reckoner

/-- Run a call and pass on what it wrote and its exit code. -/
def main (arguments : List String) : IO UInt32 := do
  let finished ← (Reckoner.Command.ofArguments arguments).execute Reckoner.systemActions
  IO.print finished.output
  IO.eprint finished.errors
  return UInt32.ofNat finished.code
