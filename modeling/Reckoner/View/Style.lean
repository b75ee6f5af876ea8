/-!
# Colours and styles of a character cell
-/

namespace Reckoner

/-- A colour. With `unset` the terminal chooses. -/
inductive Colour where
  | unset
  | black
  | rgb (red green blue : Nat)
deriving DecidableEq, Repr

/-- The colours and the emphasis of a cell. -/
structure Style where
  fore : Colour
  back : Colour
  bold : Bool
  underlined : Bool
deriving DecidableEq, Repr

namespace Style

/-- The style of a cell on which nothing is drawn. -/
def plain : Style := ⟨.unset, .unset, false, false⟩

/-- Text in a colour. -/
def inColour (colour : Colour) : Style := { plain with fore := colour }

/-- The style in bold. -/
def inBold (style : Style) : Style := { style with bold := true }

/-- The style with a line under the text. -/
def withUnderline (style : Style) : Style := { style with underlined := true }

/-- The style on a background. -/
def onColour (style : Style) (colour : Colour) : Style := { style with back := colour }

end Style

/-! ## The colours of a session -/

namespace Theme

def text : Colour := .rgb 205 214 244
def primary : Colour := .rgb 137 180 250
def secondary : Colour := .rgb 250 179 135
def comment : Colour := .rgb 108 112 134
def success : Colour := .rgb 166 227 161
def fault : Colour := .rgb 243 139 168
def keyword : Colour := .rgb 137 180 250
def number : Colour := .rgb 250 179 135
def focusedBorder : Colour := .rgb 249 226 175
def border : Colour := .rgb 108 112 134
def currentLine : Colour := .rgb 50 50 70
def declared : Colour := .rgb 148 226 213

end Theme

end Reckoner
