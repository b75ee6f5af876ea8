import Reckoner.View.Style

/-!
# Pictures made of character cells

A picture has a width, a height and a cell at every place in it. Places are given by column and
row, both counted from zero at the upper left. Pictures are put together from rows of cells, frames
and smaller pictures.
-/

namespace Reckoner

/-- A character in a style. -/
structure Cell where
  char : Char
  style : Style
deriving DecidableEq, Repr

/-- An empty cell in a style. -/
def Cell.blank (style : Style) : Cell := ⟨' ', style⟩

/-- A piece of text in one style. -/
structure StyledText where
  text : List Char
  style : Style
deriving DecidableEq, Repr

/-- The cells of pieces of text, one after the other. -/
def cellsOf (pieces : List StyledText) : List Cell :=
  pieces.flatMap fun piece ↦ piece.text.map fun c ↦ ⟨c, piece.style⟩

/-- The pieces of a text whose characters have styles: neighbours of one style are one piece. -/
def piecesOf : List (Char × Style) → List StyledText
  | [] => []
  | (c, style) :: rest =>
    match piecesOf rest with
    | [] => [⟨[c], style⟩]
    | piece :: others =>
      if piece.style = style then { piece with text := c :: piece.text } :: others
      else ⟨[c], style⟩ :: piece :: others

/-- A rectangle of places. -/
structure Area where
  left : Nat
  top : Nat
  width : Nat
  height : Nat
deriving DecidableEq, Repr

/-- Whether a place is in an area. -/
def Area.contains (area : Area) (x y : Nat) : Bool :=
  area.left ≤ x && x < area.left + area.width && area.top ≤ y && y < area.top + area.height

/-- A rectangle of cells. -/
structure Picture where
  width : Nat
  height : Nat
  /-- The cell in a column and a row. -/
  cell : Nat → Nat → Cell

namespace Picture

/-- A picture on which nothing is drawn. -/
def blank (width height : Nat) : Picture := ⟨width, height, fun _ _ ↦ .blank .plain⟩

/-- A picture with another one drawn into an area of it. -/
def drawn (screen : Picture) (area : Area) (picture : Picture) : Picture :=
  { screen with
    cell x y :=
      if area.contains x y then picture.cell (x - area.left) (y - area.top) else screen.cell x y }

/-- One row of cells on a background, from the left, cut at the width. -/
def leftAligned (width : Nat) (background : Style) (cells : List Cell) : Picture :=
  ⟨width, 1, fun x _ ↦ cells[x]?.getD (.blank background)⟩

/-- One row of cells on a background, up to the right edge; cut at the width as if it began at the
left if it is too long. -/
def rightAligned (width : Nat) (background : Style) (cells : List Cell) : Picture :=
  leftAligned width background
    (List.replicate (width - cells.length) (.blank background) ++ cells)

/-- Two pictures side by side. -/
def beside (a b : Picture) : Picture :=
  ⟨a.width + b.width, max a.height b.height,
    fun x y ↦ if x < a.width then a.cell x y else b.cell (x - a.width) y⟩

/-- Two pictures one above the other. -/
def above (a b : Picture) : Picture :=
  ⟨max a.width b.width, a.height + b.height,
    fun x y ↦ if y < a.height then a.cell x y else b.cell x (y - a.height)⟩

/-- The character of a frame at a place on its border. -/
def borderChar (width height x y : Nat) : Char :=
  if x = 0 ∧ y = 0 then '┌'
  else if x = 0 ∧ y + 1 = height then '└'
  else if x + 1 = width ∧ y = 0 then '┐'
  else if x + 1 = width ∧ y + 1 = height then '┘'
  else if y = 0 ∨ y + 1 = height then '─'
  else '│'

/-- Whether a place is on the border of a frame. -/
def isBorder (width height x y : Nat) : Bool :=
  x = 0 || y = 0 || x + 1 = width || y + 1 = height

/-- Rows of cells in a frame with a title on its upper border. The rows begin inside the border and
are cut where it is met. -/
def framed (width height : Nat) (title : List Char) (style : Style) (rows : List (List Cell)) :
    Picture :=
  ⟨width, height, fun x y ↦
    if isBorder width height x y then
      let char := borderChar width height x y
      if y = 0 ∧ 0 < x ∧ x + 1 < width then ⟨title[x - 1]?.getD char, style⟩ else ⟨char, style⟩
    else ((rows[y - 1]?.getD [])[x - 1]?).getD (.blank .plain)⟩

end Picture

/-! ## Renderers -/

/-- What draws frames with rows of cells in them, and draws pictures into areas of a screen. -/
structure Renderer where
  /-- Rows of cells in a frame of a width and a height, with a title in a style. -/
  framed : Nat → Nat → List Char → Style → List (List Cell) → Picture
  /-- A screen with a picture drawn into an area. -/
  drawn : Picture → Area → Picture → Picture
  /-- How many columns a character takes. -/
  columns : Char → Nat

/-- What is relied on of a renderer. -/
structure Renderer.IsLawful (renderer : Renderer) : Prop where
  /-- A picture is in the area that it was drawn into. -/
  cell_inside : ∀ screen area picture x y, area.contains x y = true →
    (renderer.drawn screen area picture).cell x y = picture.cell (x - area.left) (y - area.top)
  /-- Around that area the screen is as it was. -/
  cell_outside : ∀ screen area picture x y, area.contains x y = false →
    (renderer.drawn screen area picture).cell x y = screen.cell x y
  /-- Inside a frame there is a row of cells, if each character takes one column, and nothing behind
  its cells. -/
  cell_framed : ∀ width height title style rows x y, x + 2 < width → y + 2 < height →
    (∀ cell ∈ rows[y]?.getD [], renderer.columns cell.char = 1) →
    (renderer.framed width height title style rows).cell (x + 1) (y + 1) =
      ((rows[y]?.getD [])[x]?).getD (.blank .plain)
  /-- The printable characters of ASCII take one column each. -/
  columns_ascii : ∀ c, ' ' ≤ c → c ≤ '~' → renderer.columns c = 1

namespace Picture

/-- The renderer that draws cell by cell and gives each character one column. -/
def renderer : Renderer := ⟨framed, drawn, fun _ ↦ 1⟩

/-- The cells of a row. -/
def rowCells (picture : Picture) (y : Nat) : List Cell :=
  (List.range picture.width).map fun x ↦ picture.cell x y

/-- The rows of the picture from the top. -/
def rows (picture : Picture) : List (List Cell) :=
  (List.range picture.height).map picture.rowCells

end Picture

end Reckoner
