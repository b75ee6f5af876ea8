import Mathlib.Data.List.Chain
import Reckoner.View.Picture

/-!
# Cutting a text by its styles

A text whose characters have styles is cut into pieces of one style each. None of them is empty and
no two neighbours have the same style, and there is only one such cut. So it does not matter how the
cut is made. A writer that goes from left to right keeps the pieces that are complete and the one
that is open; it completes the open one where the style changes and at the end.
-/

namespace Reckoner

/-! ## The characters of pieces -/

/-- The characters of pieces of text. -/
def charsOf (pieces : List StyledText) : List Char := pieces.flatMap StyledText.text

theorem charsOf_cons (piece : StyledText) (pieces : List StyledText) :
    charsOf (piece :: pieces) = piece.text ++ charsOf pieces := List.flatMap_cons

theorem cellsOf_cons (piece : StyledText) (pieces : List StyledText) :
    cellsOf (piece :: pieces) = (piece.text.map fun c ↦ ⟨c, piece.style⟩) ++ cellsOf pieces :=
  List.flatMap_cons

theorem cellsOf_append (pieces others : List StyledText) :
    cellsOf (pieces ++ others) = cellsOf pieces ++ cellsOf others := List.flatMap_append

/-- Each character has a cell. -/
theorem map_char_cellsOf (pieces : List StyledText) :
    (cellsOf pieces).map Cell.char = charsOf pieces := by
  induction pieces with
  | nil => rfl
  | cons piece pieces ih =>
    rw [charsOf_cons, ← ih, cellsOf_cons, List.map_append, List.map_map]
    congr 1
    exact List.map_id piece.text

/-- The cell of a character in its style. -/
def Cell.ofPair (styled : Char × Style) : Cell := ⟨styled.1, styled.2⟩

/-- Cutting a text into pieces keeps its characters and their styles. -/
theorem cellsOf_piecesOf (styled : List (Char × Style)) :
    cellsOf (piecesOf styled) = styled.map Cell.ofPair := by
  induction styled with
  | nil => rfl
  | cons head rest ih =>
    obtain ⟨c, style⟩ := head
    rw [List.map_cons, ← ih, piecesOf]
    cases piecesOf rest with
    | nil => rfl
    | cons piece others =>
      dsimp only
      split
      · rename_i hstyle
        subst hstyle
        rfl
      · rfl

theorem charsOf_piecesOf (styled : List (Char × Style)) :
    charsOf (piecesOf styled) = styled.map Prod.fst := by
  rw [← map_char_cellsOf, cellsOf_piecesOf, List.map_map]
  rfl

/-! ## Runs -/

/-- No piece is empty, and no two neighbours have the same style. -/
structure AreRuns (pieces : List StyledText) : Prop where
  ne_nil : ∀ piece ∈ pieces, piece.text ≠ []
  isChain : pieces.IsChain (·.style ≠ ·.style)

section

variable {piece : StyledText} {pieces : List StyledText} {styled rest : List (Char × Style)}
  {text : List Char} {style : Style} {c : Char}

theorem areRuns_nil : AreRuns [] := ⟨fun _ ↦ nofun, .nil⟩

theorem areRuns_cons_iff : AreRuns (piece :: pieces) ↔
    piece.text ≠ [] ∧ (∀ next ∈ pieces.head?, piece.style ≠ next.style) ∧ AreRuns pieces := by
  constructor
  · rintro ⟨hne, hchain⟩
    obtain ⟨hhead, hchain⟩ := List.isChain_cons.mp hchain
    obtain ⟨hpiece, hne⟩ := List.forall_mem_cons.mp hne
    exact ⟨hpiece, hhead, hne, hchain⟩
  · rintro ⟨hpiece, hhead, hne, hchain⟩
    exact ⟨List.forall_mem_cons.mpr ⟨hpiece, hne⟩, List.isChain_cons.mpr ⟨hhead, hchain⟩⟩

/-- A text is cut into runs. -/
theorem areRuns_piecesOf (styled : List (Char × Style)) : AreRuns (piecesOf styled) := by
  induction styled with
  | nil => exact areRuns_nil
  | cons head rest ih =>
    obtain ⟨c, style⟩ := head
    rw [piecesOf]
    cases hpieces : piecesOf rest with
    | nil => exact areRuns_cons_iff.mpr ⟨List.cons_ne_nil _ _, fun _ ↦ nofun, areRuns_nil⟩
    | cons piece others =>
      rw [hpieces] at ih
      dsimp only
      split
      · obtain ⟨-, hhead, hothers⟩ := areRuns_cons_iff.mp ih
        exact areRuns_cons_iff.mpr ⟨List.cons_ne_nil _ _, hhead, hothers⟩
      · rename_i hstyle
        refine areRuns_cons_iff.mpr ⟨List.cons_ne_nil _ _, ?_, ih⟩
        rintro next ⟨⟩
        exact Ne.symm hstyle

/-- A run in front of a text that goes on in another style is a piece of its own. -/
theorem piecesOf_append (hne : text ≠ [])
    (hhead : ∀ next ∈ (piecesOf rest).head?, style ≠ next.style) :
    piecesOf ((text.map fun c ↦ (c, style)) ++ rest) = ⟨text, style⟩ :: piecesOf rest := by
  induction text with
  | nil => exact absurd rfl hne
  | cons c text ih =>
    rw [List.map_cons, List.cons_append, piecesOf]
    cases text with
    | nil =>
      cases hpieces : piecesOf rest with
      | nil => simp [hpieces]
      | cons piece others =>
        have hstyle : piece.style ≠ style := (hhead piece (by rw [hpieces]; rfl)).symm
        simp [hpieces, hstyle]
    | cons c' text =>
      rw [ih (List.cons_ne_nil _ _)]
      exact if_pos rfl

/-- There is only one way to cut a text into runs. -/
theorem AreRuns.eq_piecesOf (h : AreRuns pieces)
    (hcells : cellsOf pieces = styled.map Cell.ofPair) : pieces = piecesOf styled := by
  induction pieces generalizing styled with
  | nil =>
    obtain rfl : styled = [] := List.map_eq_nil_iff.mp hcells.symm
    rfl
  | cons piece pieces ih =>
    obtain ⟨hne, hhead, hpieces⟩ := areRuns_cons_iff.mp h
    rw [cellsOf_cons] at hcells
    obtain ⟨front, rest, rfl, hfront, hrest⟩ := List.map_eq_append_iff.mp hcells.symm
    obtain rfl := ih hpieces hrest.symm
    have hpairs : front = piece.text.map fun c ↦ (c, piece.style) := by
      have hback := congrArg (List.map fun cell : Cell ↦ (cell.char, cell.style)) hfront
      simpa [Function.comp_def, Cell.ofPair] using hback
    rw [hpairs, piecesOf_append hne hhead]

end

/-! ## From left to right -/

/-- Pieces that are being written: the complete ones, and the characters and the style of the one
that is open. -/
structure Writer where
  complete : List StyledText
  text : List Char
  style : Style

namespace Writer

/-- Nothing has been written. -/
def start : Writer := ⟨[], [], .plain⟩

/-- The pieces when the open one is completed. An empty one is none. -/
def pieces (writer : Writer) : List StyledText :=
  if writer.text = [] then writer.complete
  else writer.complete ++ [⟨writer.text, writer.style⟩]

/-- Write a character in its style, which completes the open piece if it has another one. -/
def write (writer : Writer) (styled : Char × Style) : Writer :=
  if styled.2 ≠ writer.style ∧ writer.text ≠ [] then
    ⟨writer.pieces, [styled.1], styled.2⟩
  else ⟨writer.complete, writer.text ++ [styled.1], styled.2⟩

/-- The writer has written some characters: they are those of the complete pieces and of the open
one, the complete pieces are runs, and the open one has not the style of the last of them. It is
empty only if nothing was written. -/
structure Wrote (writer : Writer) (styled : List (Char × Style)) : Prop where
  cells_eq : cellsOf writer.complete ++ (writer.text.map fun c ↦ ⟨c, writer.style⟩) =
    styled.map Cell.ofPair
  areRuns : AreRuns writer.complete
  getLast?_ne : ∀ last ∈ writer.complete.getLast?, last.style ≠ writer.style
  complete_eq_nil : writer.text = [] → writer.complete = []

variable {writer : Writer} {styled : List (Char × Style)}

/-- When the open piece is completed the pieces are runs of what was written. -/
theorem Wrote.pieces (h : writer.Wrote styled) :
    AreRuns writer.pieces ∧ cellsOf writer.pieces = styled.map Cell.ofPair := by
  rw [Writer.pieces]
  split
  · rename_i hnil
    refine ⟨h.areRuns, ?_⟩
    rw [← h.cells_eq, hnil, List.map_nil, List.append_nil]
  · rename_i hne
    constructor
    · refine ⟨List.forall_mem_append.mpr ⟨h.areRuns.ne_nil, List.forall_mem_singleton.mpr hne⟩, ?_⟩
      refine h.areRuns.isChain.append (.singleton _) fun last hlast open' hopen ↦ ?_
      cases hopen
      exact h.getLast?_ne last hlast
    · rw [cellsOf_append, cellsOf_cons, ← h.cells_eq]
      exact congrArg _ (List.append_nil _)

/-- One character more. -/
theorem Wrote.write (h : writer.Wrote styled) (next : Char × Style) :
    (writer.write next).Wrote (styled ++ [next]) := by
  obtain ⟨c, style⟩ := next
  rw [Writer.write]
  split
  · rename_i hends
    obtain ⟨hruns, hcells⟩ := h.pieces
    refine ⟨?_, hruns, ?_, nofun⟩
    · rw [hcells, List.map_append]
      rfl
    · rw [Writer.pieces, if_neg hends.2, List.getLast?_concat]
      rintro last ⟨⟩
      exact Ne.symm hends.1
  · rename_i hgoesOn
    rcases Decidable.not_and_iff_or_not.mp hgoesOn with hstyle | hnil
    · obtain rfl : style = writer.style := Decidable.not_not.mp hstyle
      refine ⟨?_, h.areRuns, h.getLast?_ne, fun hnil ↦ absurd hnil (by simp)⟩
      rw [List.map_append, ← List.append_assoc, h.cells_eq, List.map_append]
      rfl
    · -- Nothing was written, so the style of the open piece was that of no character.
      have htext : writer.text = [] := Decidable.not_not.mp hnil
      have hcells := h.cells_eq
      have hcomplete := h.complete_eq_nil htext
      rw [htext, hcomplete] at hcells ⊢
      obtain rfl : styled = [] := List.map_eq_nil_iff.mp hcells.symm
      exact ⟨rfl, areRuns_nil, fun _ ↦ nofun, nofun⟩

/-- A text that is written character by character. -/
theorem wrote_foldl (styled : List (Char × Style)) :
    (styled.foldl Writer.write start).Wrote styled := by
  induction styled using List.reverseRecOn with
  | nil => exact ⟨rfl, areRuns_nil, fun _ ↦ nofun, fun _ ↦ rfl⟩
  | append_singleton styled next ih =>
    rw [List.foldl_concat]
    exact ih.write next

/-- Writing a text from left to right cuts it as it is cut from right to left. -/
theorem pieces_foldl (styled : List (Char × Style)) :
    (styled.foldl Writer.write start).pieces = piecesOf styled := by
  obtain ⟨hruns, hcells⟩ := (wrote_foldl styled).pieces
  exact hruns.eq_piecesOf hcells

end Writer

end Reckoner
