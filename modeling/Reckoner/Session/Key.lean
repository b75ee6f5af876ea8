/-!
# Keys
-/

namespace Reckoner

/-- A key, by what it is for. A key that no session listens to is `other`. -/
inductive KeyCode where
  | char (c : Char)
  | tab
  | enter
  | backspace
  | delete
  | left
  | right
  | up
  | down
  | pageUp
  | pageDown
  | home
  | lineEnd
  | escape
  | other
deriving DecidableEq, Repr

/-- A key that is pressed, with or without the control key held down. -/
structure Key where
  code : KeyCode
  control : Bool
deriving DecidableEq, Repr

end Reckoner
