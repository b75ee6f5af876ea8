import Reckoner.Proofs.Declaration.Form
import Reckoner.Proofs.View.Pieces
import Reckoner.View.Highlight

/-!
# The styles of a line

Each character of a line is shown in one style: underlined where the line has a fault, wherever the
fault may begin and end, and else by what the line is, so that in a declaration the name stands out
and nothing besides. The line is cut into pieces by these styles.
-/

namespace Reckoner

/-! ## The name in a declaration -/

namespace Declaration.Parts

/-- The name begins behind the keyword and the spaces in front of it. -/
theorem getElem?_text (parts : Parts) {column : Nat} (h : column < parts.name.length) :
    parts.text[4 + parts.before + column]? = parts.name.toList[column]? := by
  have hname : column < parts.name.toList.length := by rwa [String.length_toList]
  have hlength : (parts.head ++ List.replicate parts.before ' ').length = 4 + parts.before := by
    rw [List.length_append, parts.length_head, List.length_replicate]
  rw [text, List.append_assoc, List.append_assoc, ← hlength,
    List.getElem?_append_right (Nat.le_add_right _ _), Nat.add_sub_cancel_left,
    List.getElem?_append_left hname]

end Declaration.Parts

namespace Highlight

variable {text : Line} {outcome : Option Outcome} {kind : LineKind} {name : Option Span}
  {index : Nat} {c : Char}

/-- A character of a line is one of the name that the line declares. -/
def IsOfName (text : Line) (index : Nat) (c : Char) : Prop :=
  LineKind.of text = .declaration ∧ ∃ declaration column,
    Declaration.parse (fun _ ↦ false) text = .ok declaration ∧
      index = declaration.nameSpan.start + column ∧ declaration.name.toList[column]? = some c

/-- The style that a character of a line has where no fault is. -/
def ownStyle (text : Line) (index : Nat) (c : Char) : Style :=
  baseStyle (LineKind.of text) (declaredName? (LineKind.of text) text) index c

/-- The fault of a line is about a character. -/
def IsAtFault (outcome : Option Outcome) (index : Nat) : Prop :=
  ∃ message span, outcome = some (.fault message span) ∧ span.start ≤ index ∧ index < span.stop

/-! ## The style of a character -/

/-- The name is what has the style of declared names, if it begins behind the keyword. -/
theorem baseStyle_eq_declared_iff : baseStyle kind name index c = .inColour Theme.declared ↔
    kind = .declaration ∧ Declaration.keywordLength ≤ index ∧
      name.any (·.contains index) = true := by
  have hnumber : (if c.isDigit || c == '.' then Style.inColour Theme.number
      else .inColour Theme.text) ≠ .inColour Theme.declared := by
    split <;> decide
  cases kind with
  | blank | expression => simpa [baseStyle] using hnumber
  | comment => simp [baseStyle]; decide
  | declaration =>
    simp only [baseStyle, true_and]
    split
    · rename_i hlt
      exact iff_of_false (by decide) fun h ↦ absurd hlt (Nat.not_lt.mpr h.1)
    · rename_i hle
      split
      · rename_i hany
        exact iff_of_true rfl ⟨Nat.le_of_not_lt hle, hany⟩
      · rename_i hany
        exact iff_of_false hnumber fun h ↦ hany h.2

/-- Only a fault is underlined. -/
theorem baseStyle_ne_faultStyle : baseStyle kind name index c ≠ faultStyle := by
  have hnumber : (if c.isDigit || c == '.' then Style.inColour Theme.number
      else .inColour Theme.text) ≠ faultStyle := by
    split <;> decide
  cases kind with
  | blank | expression => exact hnumber
  | comment => exact (by decide : Style.inColour Theme.comment ≠ faultStyle)
  | declaration =>
    simp only [baseStyle]
    split
    · decide
    · split
      · decide
      · exact hnumber

theorem any_declaredName?_iff :
    (declaredName? (LineKind.of text) text).any (·.contains index) = true ↔
      LineKind.of text = .declaration ∧ ∃ declaration,
        Declaration.parse (fun _ ↦ false) text = .ok declaration ∧
          declaration.nameSpan.contains index = true := by
  rw [declaredName?]
  split
  · rename_i hkind
    simp only [Option.any_map, Option.any_eq_true, toOption_eq_some_iff, hkind, true_and]
  · rename_i hkind
    exact iff_of_false Bool.false_ne_true fun h ↦ hkind h.1

/-- A character is in the span of a name exactly if it is one of its characters. -/
theorem contains_nameSpan_iff {declaration : Declaration}
    (h : Declaration.parse (fun _ ↦ false) text = .ok declaration) (hc : text[index]? = some c) :
    declaration.nameSpan.contains index = true ↔
      ∃ column, index = declaration.nameSpan.start + column ∧
        declaration.name.toList[column]? = some c := by
  obtain ⟨parts, rfl, -, rfl⟩ := Declaration.parse_eq_ok_iff.mp h
  simp only [Span.contains_iff, Declaration.Parts.declaration]
  constructor
  · rintro ⟨hstart, hstop⟩
    obtain ⟨column, rfl⟩ := Nat.exists_eq_add_of_le hstart
    have hcolumn : column < parts.name.length := by omega
    exact ⟨column, rfl, by rw [← parts.getElem?_text hcolumn, hc]⟩
  · rintro ⟨column, rfl, hname⟩
    have hcolumn : column < parts.name.length := by
      rw [← String.length_toList]
      exact (List.getElem?_eq_some_iff.mp hname).1
    omega

/-- In a declaration the characters of the name, and no others, have the style of declared names. -/
theorem ownStyle_eq_declared_iff (hc : text[index]? = some c) :
    ownStyle text index c = .inColour Theme.declared ↔ IsOfName text index c := by
  rw [ownStyle, baseStyle_eq_declared_iff, any_declaredName?_iff, IsOfName]
  constructor
  · rintro ⟨hkind, -, -, declaration, hparse, hcontains⟩
    obtain ⟨column, hcolumn⟩ := (contains_nameSpan_iff hparse hc).mp hcontains
    exact ⟨hkind, declaration, column, hparse, hcolumn⟩
  · rintro ⟨hkind, declaration, column, hparse, hcolumn⟩
    have hcontains := (contains_nameSpan_iff hparse hc).mpr ⟨column, hcolumn⟩
    refine ⟨hkind, ?_, hkind, declaration, hparse, hcontains⟩
    have hstart := (Span.contains_iff.mp hcontains).1
    obtain ⟨parts, -, -, rfl⟩ := Declaration.parse_eq_ok_iff.mp hparse
    simp only [Declaration.Parts.declaration, Declaration.keywordLength] at hstart ⊢
    omega

theorem any_faultSpan?_iff :
    (faultSpan? outcome).any (·.contains index) = true ↔ IsAtFault outcome index := by
  rw [IsAtFault]
  cases outcome with
  | none => simp [faultSpan?]
  | some outcome => cases outcome <;> simp [faultSpan?, Span.contains_iff]

/-- The characters of a line in their styles. -/
def styled (text : Line) (outcome : Option Outcome) : List (Char × Style) :=
  text.zipIdx.map fun (c, index) ↦ (c, charStyle (LineKind.of text)
    (declaredName? (LineKind.of text) text) (faultSpan? outcome) index c)

theorem line_eq_piecesOf (text : Line) (outcome : Option Outcome) :
    line text outcome = piecesOf (styled text outcome) := rfl

theorem charsOf_line (text : Line) (outcome : Option Outcome) :
    charsOf (line text outcome) = text := by
  rw [line_eq_piecesOf, charsOf_piecesOf, styled, List.map_map]
  exact List.zipIdx_map_fst 0 text

/-- A line is shown in pieces. -/
structure Renders (text : Line) (outcome : Option Outcome) (pieces : List StyledText) : Prop where
  /-- No character is lost, put in or moved. -/
  charsOf_eq : charsOf pieces = text
  areRuns : AreRuns pieces
  /-- A character that the fault is about is underlined, and no other; any other has its own
  style. -/
  cell_eq : ∀ index c, text[index]? = some c → ∃ style,
    (cellsOf pieces)[index]? = some ⟨c, style⟩ ∧ (style = faultStyle ↔ IsAtFault outcome index) ∧
      (¬IsAtFault outcome index → style = ownStyle text index c)
  /-- The style of declared names is that of the name alone. -/
  declared_iff : ∀ index c, text[index]? = some c →
    (ownStyle text index c = .inColour Theme.declared ↔ IsOfName text index c)
  /-- The pieces can be written from left to right. -/
  written : ((styled text outcome).foldl Writer.write .start).pieces = pieces

theorem getElem?_cellsOf_line (hc : text[index]? = some c) :
    (cellsOf (line text outcome))[index]? = some ⟨c, charStyle (LineKind.of text)
      (declaredName? (LineKind.of text) text) (faultSpan? outcome) index c⟩ := by
  rw [line_eq_piecesOf, cellsOf_piecesOf, styled, List.map_map, List.getElem?_map,
    List.getElem?_zipIdx, hc, Option.map_some, Option.map_some, Nat.zero_add]
  rfl

theorem charStyle_eq_faultStyle_iff {fault : Option Span} :
    charStyle kind name fault index c = faultStyle ↔ fault.any (·.contains index) = true := by
  rw [charStyle]
  split
  · rename_i hfault
    exact iff_of_true rfl hfault
  · rename_i hfault
    exact iff_of_false baseStyle_ne_faultStyle hfault

/-- Every line is shown in its styles, whatever came of it, also if that was another line's. -/
theorem renders_line (text : Line) (outcome : Option Outcome) :
    Renders text outcome (line text outcome) where
  charsOf_eq := charsOf_line text outcome
  areRuns := areRuns_piecesOf _
  cell_eq index c hc := by
    refine ⟨_, getElem?_cellsOf_line hc, charStyle_eq_faultStyle_iff.trans any_faultSpan?_iff,
      fun hfault ↦ ?_⟩
    exact if_neg (mt any_faultSpan?_iff.mp hfault)
  declared_iff _ _ := ownStyle_eq_declared_iff
  written := Writer.pieces_foldl _

-- The fault is from a time when the line was longer.
example : line "1+a".toList (some (.fault "Unknown Word" ⟨2, 9⟩)) =
    [⟨['1'], .inColour Theme.number⟩, ⟨['+'], .inColour Theme.text⟩, ⟨['a'], faultStyle⟩] := by
  decide

end Highlight

end Reckoner
