/-!
# Lines of text

A line is the list of its characters, so that every position on it, in a span, a cursor or a
column, counts characters. This module holds the blank characters, trimming, and the two ways in
which a text is cut into lines: the lines of a buffer, whose line feeds separate, and the lines of
a stream, whose line feeds terminate.
-/

namespace Reckoner

/-- A line of text, character by character. -/
abbrev Line := List Char

/-! ## Blank characters -/

/-- The code points with Unicode's property White_Space, as inclusive ranges. -/
def blankRanges : List (Nat × Nat) :=
  [(0x09, 0x0D), (0x20, 0x20), (0x85, 0x85), (0xA0, 0xA0), (0x1680, 0x1680), (0x2000, 0x200A),
    (0x2028, 0x2029), (0x202F, 0x202F), (0x205F, 0x205F), (0x3000, 0x3000)]

/-- Whether a character is white space. -/
def isBlank (c : Char) : Bool :=
  blankRanges.any fun range ↦ range.1 ≤ c.toNat && c.toNat ≤ range.2

namespace Line

/-- The line from its first character that is not blank. -/
def trimStart (line : Line) : Line := line.dropWhile isBlank

/-- The line up to its last character that is not blank. -/
def trimEnd (line : Line) : Line := (line.reverse.dropWhile isBlank).reverse

/-- The line without the blanks at its two ends. -/
def trim (line : Line) : Line := trimEnd (trimStart line)

/-- The line without one carriage return at its end, if it has one. -/
def dropReturn (line : Line) : Line :=
  if line.getLast? = some '\r' then line.dropLast else line

end Line

/-! ## Cutting a text into lines -/

/-- The pieces of a text between its line feeds: one more than there are line feeds. -/
def pieces : List Char → List Line
  | [] => [[]]
  | c :: rest =>
    if c = '\n' then [] :: pieces rest
    else match pieces rest with
      | [] => [[c]]
      | piece :: others => (c :: piece) :: others

/-- A text has at least one piece. -/
theorem pieces_ne_nil (text : List Char) : pieces text ≠ [] := by
  cases text with
  | nil => simp [pieces]
  | cons c rest => simp only [pieces]; split <;> (try split) <;> simp

/-- The lines of a text that is loaded into a buffer: line feeds separate them, and a carriage
return at the end of a line is not part of it. -/
def bufferLines (text : List Char) : List Line := (pieces text).map Line.dropReturn

/-- A text in a buffer has at least one line. -/
theorem bufferLines_ne_nil (text : List Char) : bufferLines text ≠ [] := by
  simpa [bufferLines] using pieces_ne_nil text

/-- The lines of a text that is read as a stream: a line feed, or a carriage return and a line
feed, ends a line, and what follows the last one is a line only if it is not empty. -/
def streamLines (text : List Char) : List Line :=
  let parts := pieces text
  parts.dropLast.map Line.dropReturn ++ (parts.getLast?.toList.filter fun part ↦ !part.isEmpty)

/-- The text of some lines, with a line feed between each and the next. -/
def joinLines (lines : List Line) : List Char := List.intercalate ['\n'] lines

end Reckoner
