import Mathlib.Data.List.Basic
import Reckoner.Proofs.View.Highlight
import Reckoner.View.Page

/-!
# The place of the cursor

A page shows each of its lines in a row of its own, behind the border and the number of the line,
and it scrolls so that the line of the cursor is one of them. The cursor is placed behind the border
and a number of four digits. So it is at its character exactly if the number of the line has no more
of them; from line ten thousand on it stands in front of it by the digits that are more.

Of the drawing itself nothing matters but what a lawful renderer does. The one that draws cell by
cell is lawful, and what is shown for all of them is then said of its pages.
-/

namespace Reckoner

/-! ## The characters of a row -/

namespace Page

theorem charsOf_lineRow (isCurrent : Bool) (index : Nat) (text : Line)
    (outcome : Option Outcome) :
    charsOf (lineRow isCurrent index text outcome) = gutter index ++ text := by
  rw [lineRow, charsOf_cons]
  congr 1
  split
  · rw [charsOf, List.flatMap_map]
    exact Highlight.charsOf_line text outcome
  · exact Highlight.charsOf_line text outcome

/-- The number of a line is written in printable characters. -/
theorem isAscii_of_mem_gutter {index : Nat} {c : Char} (h : c ∈ gutter index) :
    ' ' ≤ c ∧ c ≤ '~' := by
  rw [gutter, List.mem_append, List.mem_append, List.mem_replicate, List.mem_singleton] at h
  rcases h with (⟨-, rfl⟩ | hnumber) | rfl
  · decide
  · rw [Nat.toList_repr] at hnumber
    have hdigit := Nat.isDigit_of_mem_toDigits (by decide) (by decide) hnumber
    simp only [Char.isDigit, Bool.and_eq_true, decide_eq_true_eq] at hdigit
    exact ⟨Char.le_trans (by decide) hdigit.1, Char.le_trans hdigit.2 (by decide)⟩
  · decide

/-- A number of up to four digits fills the columns in front of its line, and a longer one takes
more. -/
theorem gutterWidth_le_length_gutter (index : Nat) : gutterWidth ≤ (gutter index).length := by
  simp only [gutter, gutterWidth, List.length_append, List.length_replicate, List.length_singleton]
  omega

theorem length_gutter_eq_iff (index : Nat) :
    (gutter index).length = gutterWidth ↔ index < 9999 := by
  have hdigits : (Nat.repr (index + 1)).toList.length ≤ 4 ↔ index + 1 < 10 ^ 4 := by
    rw [Nat.toList_repr]
    exact Nat.length_toDigits_le_iff (by decide) (by decide)
  simp only [gutter, gutterWidth, List.length_append, List.length_replicate, List.length_singleton]
  omega

/-! ## Scrolling -/

/-- The line that is followed is shown, wherever the page was before. -/
theorem follow_le (offset row : Nat) {height : Nat} (hheight : 0 < height) :
    follow offset row height ≤ row ∧ row < follow offset row height + height := by
  rw [follow]
  split
  · omega
  · split
    · omega
    · omega

end Page

/-! ## Pictures in an area -/

/-- A place is inside the border of an area. -/
structure Area.Encloses (area : Area) (x y : Nat) : Prop where
  left : area.left < x
  right : x + 1 < area.left + area.width
  top : area.top < y
  bottom : y + 1 < area.top + area.height

/-- Two areas have no place in common. -/
def Area.Apart (a b : Area) : Prop := ∀ x y, a.contains x y = true → b.contains x y = false

/-- An area that begins where another one ends is apart from it. -/
theorem Area.apart_of_le {a b : Area} (h : a.left + a.width ≤ b.left) : a.Apart b := by
  intro x y
  simp only [contains, Bool.and_eq_true, decide_eq_true_eq, Bool.and_eq_false_iff,
    decide_eq_false_iff_not]
  omega

namespace Picture

variable {screen picture : Picture} {area : Area} {x y : Nat}

theorem cell_drawn_of_contains (h : area.contains x y = true) :
    (screen.drawn area picture).cell x y = picture.cell (x - area.left) (y - area.top) := if_pos h

theorem cell_drawn_of_not_contains (h : area.contains x y = false) :
    (screen.drawn area picture).cell x y = screen.cell x y :=
  if_neg (ne_of_eq_of_ne h Bool.false_ne_true)

/-- Inside a frame there are the rows, with nothing behind their cells. -/
theorem cell_framed {width height : Nat} {title : List Char} {style : Style}
    {rows : List (List Cell)} (hx : x + 2 < width) (hy : y + 2 < height) :
    (framed width height title style rows).cell (x + 1) (y + 1) =
      ((rows[y]?.getD [])[x]?).getD (.blank .plain) := by
  have hinside : isBorder width height (x + 1) (y + 1) = false := by
    simp only [isBorder, Bool.or_eq_false_iff, decide_eq_false_iff_not]
    omega
  exact if_neg (ne_of_eq_of_ne hinside Bool.false_ne_true)

/-- What is drawn cell by cell is where it was drawn. -/
theorem isLawful_renderer : renderer.IsLawful where
  cell_inside _ _ _ _ _ := cell_drawn_of_contains
  cell_outside _ _ _ _ _ := cell_drawn_of_not_contains
  cell_framed _ _ _ _ _ _ _ hx hy _ := cell_framed hx hy
  columns_ascii _ _ _ := rfl

end Picture

theorem Area.Encloses.contains {area : Area} {x y : Nat} (h : area.Encloses x y) :
    area.contains x y = true := by
  obtain ⟨hleft, hright, htop, hbottom⟩ := h
  simp only [Area.contains, Bool.and_eq_true, decide_eq_true_eq]
  omega

/-! ## Pages -/

namespace Page

/-- The place where a page shows a character of a line: behind the border and the number of the
line. -/
def View.place (page : View) (area : Area) (index column : Nat) : Nat × Nat :=
  (area.left + 1 + (gutter index).length + column, area.top + 1 + (index - page.offset))

/-- A page shows a line: in its row there are the number and the characters of the line, up to the
border, and nothing behind them. -/
structure View.Shows (page : View) (area : Area) (index : Nat) (text : Line) : Prop where
  offset_le : page.offset ≤ index
  lt_height : index - page.offset + 2 < area.height
  char_eq : ∀ x, x + 2 < area.width →
    (page.picture.cell (area.left + 1 + x) (area.top + 1 + (index - page.offset))).char =
      (gutter index ++ text)[x]?.getD ' '

/-- A character is where its line is shown. -/
theorem View.Shows.char_place {page : View} {area : Area} {index column : Nat} {text : Line}
    (h : page.Shows area index text) (hwidth : (gutter index).length + column + 2 < area.width) :
    (page.picture.cell (page.place area index column).1 (page.place area index column).2).char =
      text[column]?.getD ' ' := by
  have hchar := h.char_eq _ hwidth
  rw [List.getElem?_append_right (Nat.le_add_right _ _), Nat.add_sub_cancel_left,
    ← Nat.add_assoc] at hchar
  exact hchar

section

variable {renderer : Renderer} {screen : Picture} {sheet results : Area} {offset row column : Nat}
  {lines : List Line} {outcomes : List Outcome}

/-- The lines that are shown, each with its number. -/
theorem getElem?_shown {first count k : Nat} {text : Line} (hcount : k < count)
    (htext : lines[first + k]? = some text) :
    ((lines.zipIdx.drop first).take count)[k]? = some (text, first + k) := by
  rw [List.getElem?_take_of_lt hcount, List.getElem?_drop, List.getElem?_zipIdx, htext,
    Option.map_some, Nat.zero_add]

/-- The cells of a line take one column each if its characters do. -/
theorem columns_lineRow (hlawful : renderer.IsLawful) {isCurrent : Bool} {index : Nat} {text : Line}
    {outcome : Option Outcome} (hnarrow : ∀ c ∈ text, renderer.columns c = 1) :
    ∀ cell ∈ cellsOf (lineRow isCurrent index text outcome), renderer.columns cell.char = 1 := by
  intro cell hcell
  have hchar : cell.char ∈ gutter index ++ text := by
    rw [← charsOf_lineRow isCurrent index text outcome, ← map_char_cellsOf]
    exact List.mem_map_of_mem hcell
  rcases List.mem_append.mp hchar with hchar | hchar
  · obtain ⟨hfirst, hlast⟩ := isAscii_of_mem_gutter hchar
    exact hlawful.columns_ascii _ hfirst hlast
  · exact hnarrow _ hchar

/-- Each line from the first one shown on has its row, as far as there are rows. -/
theorem shows_drawWith (hlawful : renderer.IsLawful) (hapart : sheet.Apart results) {index : Nat}
    {text : Line} (htext : lines[index]? = some text)
    (hnarrow : ∀ c ∈ text, renderer.columns c = 1)
    (hlower : (drawWith renderer screen sheet results offset lines outcomes row column).offset ≤
      index)
    (hupper : index -
      (drawWith renderer screen sheet results offset lines outcomes row column).offset + 2 <
        sheet.height) :
    (drawWith renderer screen sheet results offset lines outcomes row column).Shows sheet index
      text := by
  obtain ⟨k, rfl⟩ := Nat.exists_eq_add_of_le hlower
  rw [Nat.add_sub_cancel_left] at hupper
  refine ⟨hlower, by rwa [Nat.add_sub_cancel_left], ?_⟩
  intro x hx
  have hencloses : sheet.Encloses (sheet.left + 1 + x) (sheet.top + 1 + k) := by
    constructor <;> omega
  have hrow : k < visibleRows sheet.height := by
    rw [visibleRows]
    omega
  have hshown := getElem?_shown hrow htext
  have hleft : sheet.left + 1 + x - sheet.left = x + 1 := by omega
  have htop : sheet.top + 1 + k - sheet.top = k + 1 := by omega
  rw [Nat.add_sub_cancel_left]
  simp only [drawWith] at hshown ⊢
  -- The line is in the left frame, which the frame of the results does not touch.
  rw [hlawful.cell_outside _ _ _ _ _ (hapart _ _ hencloses.contains),
    hlawful.cell_inside _ _ _ _ _ hencloses.contains, hleft, htop,
    hlawful.cell_framed _ _ _ _ _ _ _ hx hupper]
  · rw [List.getElem?_map, hshown, Option.map_some, Option.getD_some,
      ← charsOf_lineRow _ _ text, ← map_char_cellsOf, List.getElem?_map]
    exact (Option.getD_map Cell.char _ _).symm
  · rw [List.getElem?_map, hshown, Option.map_some, Option.getD_some]
    exact columns_lineRow hlawful hnarrow

/-- The line of the cursor is among the lines that are shown. -/
theorem offset_drawWith_le (hheight : 3 ≤ sheet.height) :
    (drawWith renderer screen sheet results offset lines outcomes row column).offset ≤ row ∧
      row - (drawWith renderer screen sheet results offset lines outcomes row column).offset + 2 <
        sheet.height := by
  have hvisible : visibleRows sheet.height = sheet.height - 2 := by
    rw [visibleRows]
    omega
  have hpos : 0 < visibleRows sheet.height := by omega
  obtain ⟨hlower, hupper⟩ := follow_le offset row hpos
  simp only [drawWith]
  omega

/-- The cursor is in the row of its line, and at its place if the number fills the columns that the
cursor is placed behind. -/
theorem cursor_drawWith_eq_iff :
    (drawWith renderer screen sheet results offset lines outcomes row column).cursor =
        (drawWith renderer screen sheet results offset lines outcomes row column).place sheet row
          column ↔
      (gutter row).length = gutterWidth := by
  simp only [drawWith, View.place, Prod.mk.injEq, and_true]
  omega

/-- However a page is drawn, in an area of three rows or more, and wide enough for the number of the
line of the cursor and the characters up to the cursor, it shows that line, and each other one from
the first one shown on for which there is a row, if their characters take one column each. The
cursor is inside the border, and at its place exactly if the line is one of the first 9999. -/
theorem cursor_drawWith_eq_place_iff (hlawful : renderer.IsLawful) {text : Line}
    (htext : lines[row]? = some text) (hnarrow : ∀ c ∈ text, renderer.columns c = 1)
    (hheight : 3 ≤ sheet.height) (hwidth : (gutter row).length + column + 3 ≤ sheet.width)
    (hapart : sheet.Apart results) :
    let page := drawWith renderer screen sheet results offset lines outcomes row column
    (∀ index other, lines[index]? = some other → (∀ c ∈ other, renderer.columns c = 1) →
      page.offset ≤ index → index - page.offset + 2 < sheet.height →
      page.Shows sheet index other) ∧
    page.Shows sheet row text ∧ sheet.Encloses page.cursor.1 page.cursor.2 ∧
    (page.picture.cell (page.place sheet row column).1 (page.place sheet row column).2).char =
      text[column]?.getD ' ' ∧
    (page.cursor = page.place sheet row column ↔ row < 9999) := by
  intro page
  obtain ⟨hlower, hupper⟩ : page.offset ≤ row ∧ row - page.offset + 2 < sheet.height :=
    offset_drawWith_le hheight
  have hshows : page.Shows sheet row text :=
    shows_drawWith hlawful hapart htext hnarrow hlower hupper
  have hgutter := gutterWidth_le_length_gutter row
  refine ⟨fun index other ↦ shows_drawWith hlawful hapart, hshows, ?_,
    hshows.char_place (by omega), ?_⟩
  · have hcursor : page.cursor =
        (sheet.left + 1 + gutterWidth + column, sheet.top + 1 + (row - page.offset)) := rfl
    rw [hcursor]
    constructor <;> dsimp only <;> omega
  · rw [← length_gutter_eq_iff]
    exact cursor_drawWith_eq_iff

end

/-- A page in an area of three rows or more, and wide enough for the number of the line of the
cursor and the characters up to the cursor, shows that line, and each other one from the first one
shown on for which there is a row. The cursor is inside the border, and it is at the place of its
character, or of what follows the last one, exactly if the line is one of the first 9999. -/
theorem cursor_eq_place_iff (screen : Picture) (sheet results : Area) (offset : Nat)
    (lines : List Line) (outcomes : List Outcome) (row column : Nat) (text : Line)
    (htext : lines[row]? = some text) (hheight : 3 ≤ sheet.height)
    (hwidth : (gutter row).length + column + 3 ≤ sheet.width) (hapart : sheet.Apart results) :
    let page := draw screen sheet results offset lines outcomes row column
    (∀ index other, lines[index]? = some other → page.offset ≤ index →
      index - page.offset + 2 < sheet.height → page.Shows sheet index other) ∧
    page.Shows sheet row text ∧ sheet.Encloses page.cursor.1 page.cursor.2 ∧
    (page.picture.cell (page.place sheet row column).1 (page.place sheet row column).2).char =
      text[column]?.getD ' ' ∧
    (page.cursor = page.place sheet row column ↔ row < 9999) := by
  intro page
  obtain ⟨hother, hshows, hinside, hchar, hplace⟩ :=
    cursor_drawWith_eq_place_iff Picture.isLawful_renderer htext
      (fun _ _ ↦ rfl) hheight hwidth hapart
  exact ⟨fun index other h ↦ hother index other h fun _ _ ↦ rfl, hshows, hinside, hchar, hplace⟩

/-- On a page that has to scroll the cursor is at its character. -/
theorem cursor_eq_place_scrolled :
    let sheet : Area := ⟨3, 1, 20, 3⟩
    let page := draw (.blank 60 8) sheet ⟨23, 1, 20, 3⟩ 0
      ["1 + 1".toList, [], "dim x: 2".toList] [] 2 4
    page.offset = 2 ∧ page.cursor = page.place sheet 2 4 ∧ page.cursor = (13, 2) ∧
      (page.picture.cell 13 2).char = 'x' := by
  intro sheet page
  have hapart : sheet.Apart ⟨23, 1, 20, 3⟩ := Area.apart_of_le (by decide)
  obtain ⟨-, -, -, hchar, hplace⟩ := cursor_eq_place_iff (.blank 60 8) sheet ⟨23, 1, 20, 3⟩ 0
    ["1 + 1".toList, [], "dim x: 2".toList] [] 2 4 "dim x: 2".toList rfl (by decide)
    (by decide) hapart
  exact ⟨rfl, hplace.mpr (by decide), rfl, hchar⟩

/-- The number of the ten thousandth line takes one column more, and the cursor in front of its
first character stands on what separates the two. -/
theorem cursor_ne_place_ten_thousandth :
    let sheet : Area := ⟨0, 0, 20, 3⟩
    let page := draw (.blank 40 3) sheet ⟨20, 0, 20, 3⟩ 0 (List.replicate 9999 [] ++ [['1']]) []
      9999 0
    page.cursor = (6, 1) ∧ (page.picture.cell 6 1).char = ' ' ∧
      (page.picture.cell 7 1).char = '1' ∧ ¬page.cursor = page.place sheet 9999 0 := by
  intro sheet page
  have hapart : sheet.Apart ⟨20, 0, 20, 3⟩ := Area.apart_of_le (by decide)
  have htext : (List.replicate 9999 [] ++ [['1']])[9999]? = some ['1'] := by
    rw [List.getElem?_append_right (Nat.le_of_eq List.length_replicate),
      List.length_replicate]
    rfl
  have hshows : page.Shows sheet 9999 ['1'] :=
    shows_drawWith Picture.isLawful_renderer hapart htext (fun _ _ ↦ rfl) (by decide) (by decide)
  have hlong : ¬(gutter 9999).length = gutterWidth := mt (length_gutter_eq_iff 9999).mp (by decide)
  exact ⟨rfl, hshows.char_eq 5 (by decide), hshows.char_eq 6 (by decide),
    mt cursor_drawWith_eq_iff.mp hlong⟩

end Page

end Reckoner
