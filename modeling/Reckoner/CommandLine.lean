import Reckoner.Session.File
import Reckoner.Sheet
import Reckoner.Vocabulary.Standard

/-!
# The command line

The program is called with the file of a document, with options, or with both. With `--print` it
writes the report on the document and ends; without it a session begins. What a call does to files
and streams goes through a record of actions, so that it can run on a system or in memory.
-/

namespace Reckoner

/-- What a call asks for. -/
structure Arguments where
  file : Option String
  print : Bool
  /-- Milliseconds from an edit to the pass over the sheet. -/
  delay : Option Nat
  logFile : Option String
deriving DecidableEq, Repr

/-- What to do with the arguments of a call. -/
inductive Command where
  | run (arguments : Arguments)
  | showVersion
  | showHelp
  /-- The arguments are not understood. -/
  | refuse
deriving DecidableEq, Repr

namespace Command

/-- An option that takes a value. -/
inductive Valued where
  | delay
  | logFile
deriving DecidableEq, Repr

/-- A natural number that fits into 64 bits, written with digits behind an optional plus sign. -/
def readDelay? (text : List Char) : Option Nat :=
  let number := if text.head? = some '+' then text.drop 1 else text
  if number.isEmpty || !number.all Char.isDigit then none
  else
    let value := number.foldl (fun n c ↦ 10 * n + (c.toNat - '0'.toNat)) 0
    if value < Nat.pow 2 64 then some value else none

/-- The arguments with a value for an option, which may be given once. -/
def setOption (arguments : Arguments) : Valued → String → Option Arguments
  | .delay, value =>
    match arguments.delay, readDelay? value.toList with
    | none, some delay => some { arguments with delay := some delay }
    | _, _ => none
  | .logFile, value =>
    if value.isEmpty || arguments.logFile.isSome then none
    else some { arguments with logFile := some value }

/-- The arguments with a file, of which there may be one. -/
def setFile (arguments : Arguments) (value : String) : Option Arguments :=
  if value.isEmpty || arguments.file.isSome then none
  else some { arguments with file := some value }

/-- The option that a long name stands for. -/
def valued? (name : List Char) : Option Valued :=
  if name = "delay-ms".toList then some .delay
  else if name = "log-file".toList then some .logFile
  else none

/-- Whether an argument is an option: a minus sign and at least one more character. -/
def isOption (argument : List Char) : Bool := argument.head? = some '-' && 1 < argument.length

/-- What has been read of the arguments. -/
structure Reading where
  arguments : Arguments
  /-- The option whose value comes next. -/
  awaiting : Option Valued
  /-- Whether all that follows are files. -/
  onlyFiles : Bool

/-- Nothing has been read. -/
def Reading.start : Reading := ⟨⟨none, false, none, none⟩, none, false⟩

/-- The reading with other arguments, or a call that is refused. -/
def Reading.update (reading : Reading) : Option Arguments → Except Command Reading
  | some arguments => .ok { reading with arguments, awaiting := none }
  | none => .error .refuse

/-- Read an option with a long name. -/
def Reading.long (reading : Reading) (option : List Char) : Except Command Reading :=
  let name := option.takeWhile (· ≠ '=')
  match valued? name, option.dropWhile (· ≠ '=') with
  | some kind, _ :: value =>
    reading.update (setOption reading.arguments kind (String.ofList value))
  | some kind, [] => .ok { reading with awaiting := some kind }
  | none, _ :: _ => .error .refuse
  | none, [] =>
    if name = "version".toList then .error .showVersion
    else if name = "help".toList then .error .showHelp
    else if name = "print".toList ∧ !reading.arguments.print then
      .ok { reading with arguments := { reading.arguments with print := true } }
    else .error .refuse

/-- Read one more argument. An argument that is not understood refuses the call, and the options
for the version and for help end it, whatever follows. -/
def Reading.step (reading : Reading) (argument : String) : Except Command Reading :=
  match reading.awaiting, argument.toList with
  | some kind, text =>
    if isOption text then .error .refuse
    else reading.update (setOption reading.arguments kind argument)
  | none, text =>
    if reading.onlyFiles || !isOption text then
      reading.update (setFile reading.arguments argument)
    else match text with
      | ['-', '-'] => .ok { reading with onlyFiles := true }
      | '-' :: '-' :: option => reading.long option
      | '-' :: 'V' :: _ => .error .showVersion
      | '-' :: 'h' :: _ => .error .showHelp
      | _ => .error .refuse

/-- What the arguments of a call ask for. -/
def ofArguments (arguments : List String) : Command :=
  match arguments.foldlM Reading.step Reading.start with
  | .ok ⟨arguments, none, _⟩ => .run arguments
  | .ok ⟨_, some _, _⟩ => .refuse
  | .error command => command

end Command

/-- What a call left behind: its exit code and what it wrote. -/
structure Finished where
  code : Nat
  output : String
  errors : String
deriving DecidableEq, Repr

/-- Files and streams, as actions of some kind. -/
structure FileActions (m : Type → Type) where
  /-- Make an empty file, in place of one that was there. -/
  create : String → m (Except FileFault Unit)
  /-- The text of a file. -/
  read : String → m (Except FileFault String)
  /-- The text of the standard input. -/
  input : m (Except FileFault String)

namespace Command

/-- The name and the version of the program. -/
def versionText : String := "textcalc 0.1.0\n"

/-- How the program is called. -/
def helpText : String :=
  "Evaluate every line of a text document as you type\n\n"
    ++ "Usage: textcalc [OPTIONS] [FILE]\n\n"
    ++ "Arguments:\n"
    ++ "  [FILE]  Document to open (created on first save if it does not exist)\n\n"
    ++ "Options:\n"
    ++ "      --print                Evaluate the document once, print the results and exit\n"
    ++ "      --delay-ms <DELAY_MS>  Milliseconds to wait after the last keystroke before "
    ++ "re-evaluating [default: 333]\n"
    ++ "      --log-file <LOG_FILE>  Write tracing output to this file\n"
    ++ "  -h, --help                 Print help\n"
    ++ "  -V, --version              Print version\n"

/-- How a fault is named in the message of a call that could not begin. -/
def faultName : FileFault → String
  | .notFound => "Os \x7b code: 2, kind: NotFound, message: \"No such file or directory\" \x7d"
  | .permissionDenied =>
    "Os \x7b code: 13, kind: PermissionDenied, message: \"Permission denied\" \x7d"
  | .notADirectory => "Os \x7b code: 20, kind: NotADirectory, message: \"Not a directory\" \x7d"
  | .isADirectory => "Os \x7b code: 21, kind: IsADirectory, message: \"Is a directory\" \x7d"
  | .nameTooLong => "Os \x7b code: 36, kind: InvalidFilename, message: \"File name too long\" \x7d"
  | .nameWithNull =>
    "Error \x7b kind: InvalidInput, message: \"file name contained an unexpected NUL byte\" \x7d"
  | .invalidText =>
    "Error \x7b kind: InvalidData, message: \"stream did not contain valid UTF-8\" \x7d"
  | .system reason code =>
    "Os \x7b code: " ++ Nat.repr code ++ ", kind: Uncategorized, message: \"" ++ reason
      ++ "\" \x7d"

/-- A call that could not begin. -/
def couldNotBegin (fault : FileFault) : Finished := ⟨1, "", "Error: " ++ faultName fault ++ "\n"⟩

/-- The text of a document, which is empty if there is no such file. -/
def orEmpty : Except FileFault String → Except FileFault String
  | .error .notFound | .error .notADirectory | .error .nameTooLong | .error .nameWithNull => .ok ""
  | result => result

/-- The text of the document of a call. Without a file it is the standard input if it is only to be
printed. -/
def document {m : Type → Type} [Monad m] (actions : FileActions m) (arguments : Arguments) :
    m (Except FileFault String) :=
  match arguments.file with
  | some file => orEmpty <$> actions.read file
  | none => if arguments.print then actions.input else pure (.ok "")

/-- Run a call that does not need a terminal. A session needs one, and without it does not begin. -/
def execute {m : Type → Type} [Monad m] (actions : FileActions m) : Command → m Finished
  | .showVersion => pure ⟨0, versionText, ""⟩
  | .showHelp => pure ⟨0, helpText, ""⟩
  | .refuse => pure ⟨2, "", "error: invalid arguments\n\n" ++ helpText⟩
  | .run arguments => do
    let log ← match arguments.logFile with
      | some file => actions.create file
      | none => pure (.ok ())
    match log with
    | .error fault => return couldNotBegin fault
    | .ok _ =>
      match ← document actions arguments with
      | .error fault =>
        return ⟨1, "", "Error: cannot read document: " ++ fault.message ++ "\n"⟩
      | .ok text =>
        if arguments.print then return ⟨0, reportOf .standard text.toList, ""⟩
        else return couldNotBegin (.system "No such device or address" 6)

end Command

end Reckoner
