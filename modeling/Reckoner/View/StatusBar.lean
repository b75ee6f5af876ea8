import Reckoner.View.Picture

/-!
# The status bar

One row below the page: on the left the file and what there is to say, on the right the keys and
whether the sheet has faults.
-/

namespace Reckoner

/-- What the status bar shows. -/
structure StatusBar where
  file : String
  message : String
  dirty : Bool
  failed : Bool
  pending : Bool
  faultCount : Nat

namespace StatusBar

/-- The style of the bar itself. -/
def background : Style := .onColour .plain Theme.currentLine

/-- Text in a colour on the bar. -/
def onBar (colour : Colour) : Style := { background with fore := colour }

/-- Black text on a colour. -/
def badge (colour : Colour) : Style := .onColour (.inColour .black) colour

/-- The file and the message. -/
def left (bar : StatusBar) : List StyledText :=
  let colour :=
    if bar.failed then Theme.fault
    else if bar.dirty then Theme.secondary
    else Theme.primary
  [⟨(" " ++ bar.file ++ (if bar.dirty then "*" else "") ++ " ").toList, (badge colour).inBold⟩,
    ⟨" | ".toList, onBar Theme.comment⟩,
    ⟨(" " ++ bar.message ++ " ").toList, onBar (if bar.failed then Theme.fault else Theme.text)⟩]

/-- A key and what it does. -/
def hint (key action : String) : List StyledText :=
  [⟨key.toList, badge Theme.comment⟩, ⟨action.toList, onBar Theme.text⟩]

/-- The line between two entries of the bar. -/
def separator : StyledText := ⟨['│'], onBar Theme.comment⟩

/-- The state of the sheet. -/
def state (bar : StatusBar) : StyledText :=
  if bar.pending then ⟨" … ".toList, (badge Theme.secondary).inBold⟩
  else if 0 < bar.faultCount then
    ⟨(" " ++ Nat.repr bar.faultCount ++ " ERR ").toList, (badge Theme.fault).inBold⟩
  else ⟨" OK ".toList, (badge Theme.success).inBold⟩

/-- The keys and the state of the sheet. -/
def right (bar : StatusBar) : List StyledText :=
  let gap : List StyledText := [separator, ⟨[' '], onBar Theme.text⟩]
  List.intercalate gap
    [hint " ^S " " save ", hint " ^W " " save as ", hint " ^O " " open ", hint " ^N " " new ",
      hint " ^Q " " quit "] ++ [separator, bar.state]

/-- The bar in a width, of which each side has half; an odd column goes to the left. -/
def view (width : Nat) (bar : StatusBar) : Picture :=
  let half := (width + 1) / 2
  (Picture.leftAligned half background (cellsOf bar.left)).beside
    (Picture.rightAligned (width - half) background (cellsOf bar.right))

end StatusBar

end Reckoner
