import Reckoner.Token.Basic

/-!
# The uses of characters

Each character has one use on a line. In a vocabulary that is sound no operator takes the use of
another character over, so the order in which the uses are tried does not matter.
-/

namespace Reckoner

/-! ## Symbols of one character -/

theorem toList_eq_of_single? {symbol : String} {c : Char} (h : single? symbol = some c) :
    symbol.toList = [c] := by
  rw [single?.eq_def] at h
  split at h
  · rename_i c' hsymbol
    cases h
    exact hsymbol
  · cases h

namespace Vocabulary

variable {voc : Vocabulary} {symbol : String} {c : Char}

/-- The symbols of a sound vocabulary can be recognised. -/
theorem isRecognisable_of_mem (h : symbol ∈ voc.symbols) : voc.isRecognisable symbol = true := by
  have hfault : voc.symbolFault? = none := by
    have hsound := voc.sound
    simp only [Definitions.fault?, Option.orElse_eq_orElse, Option.orElse_eq_or,
      Option.or_eq_none_iff] at hsound
    exact hsound.1
  simp only [Definitions.symbolFault?, Option.map_eq_none_iff, List.find?_eq_none] at hfault
  simpa using hfault symbol h

/-- The symbols of a sound vocabulary have no character that has another use. -/
theorem not_isReservedChar (hsymbol : symbol ∈ voc.symbols) (hc : c ∈ symbol.toList) :
    isReservedChar c = false := by
  have hrecognisable := isRecognisable_of_mem hsymbol
  simp only [Definitions.isRecognisable, Bool.not_eq_true', Bool.and_eq_true,
    List.any_eq_false] at hrecognisable
  simpa using hrecognisable.1.2 c hc

/-- A character that is an operator is a symbol. -/
theorem exists_symbol_of_sign? {op : Operator} (h : voc.sign? c = some op) :
    ∃ symbol ∈ voc.symbols, single? symbol = some c := by
  rw [sign?, Option.orElse_eq_orElse, Option.orElse_eq_or, Option.or_eq_some_iff] at h
  rcases h with h | ⟨-, h⟩
  · obtain ⟨binary, hfind, -⟩ := Option.map_eq_some_iff.mp h
    refine ⟨binary.symbol, ?_, by simpa using List.find?_some hfind⟩
    exact List.mem_append_left _ (List.mem_map_of_mem (List.mem_of_find?_eq_some hfind))
  · obtain ⟨unary, hfind, -⟩ := Option.map_eq_some_iff.mp h
    refine ⟨unary.symbol, ?_, by simpa using List.find?_some hfind⟩
    exact List.mem_append_right _ (List.mem_map_of_mem (List.mem_of_find?_eq_some hfind))

/-- An operator of one character is none that has another use. -/
theorem not_isReservedChar_of_sign? {op : Operator} (h : voc.sign? c = some op) :
    isReservedChar c = false := by
  obtain ⟨symbol, hsymbol, hsingle⟩ := exists_symbol_of_sign? h
  exact not_isReservedChar hsymbol (toList_eq_of_single? hsingle ▸ List.mem_singleton_self c)

end Vocabulary

/-! ## The use of a character -/

/-- The use of a character, without an order in which the uses are tried. -/
inductive CharUse.Is (voc : Vocabulary) (c : Char) : CharUse → Prop
  | blank (h : isBlank c = true) : Is voc c .blank
  | digit (h : c.isDigit = true) : Is voc c .digit
  | point (h : c = '.') : Is voc c .point
  | comma (h : c = ',') : Is voc c .comma
  | opening (h : c = '(') : Is voc c .opening
  | closing (h : c = ')') : Is voc c .closing
  | sign {op : Operator} (h : voc.sign? c = some op) : Is voc c (.sign op)
  | letter (hreserved : isReservedChar c = false) (h : voc.sign? c = none) : Is voc c .letter

/-- Digits are not blank. -/
theorem not_isBlank_of_isDigit {c : Char} (h : c.isDigit = true) : isBlank c = false := by
  simp only [Char.isDigit, Bool.and_eq_true, decide_eq_true_eq, UInt32.le_iff_toNat_le] at h
  have hlow : 48 ≤ c.toNat := h.1
  have hhigh : c.toNat ≤ 57 := h.2
  simp only [isBlank, blankRanges, List.any_cons, List.any_nil, Bool.or_false, Bool.or_eq_false_iff,
    Bool.and_eq_false_iff, decide_eq_false_iff_not]
  omega

theorem isReservedChar_eq_false_iff {c : Char} :
    isReservedChar c = false ↔
      isBlank c = false ∧ c.isDigit = false ∧ c ≠ '(' ∧ c ≠ ')' ∧ c ≠ '.' ∧ c ≠ ',' := by
  simp [isReservedChar, and_assoc]

/-- A character that is not reserved is the operator that it stands for, or else a letter. -/
theorem CharUse.of_not_reserved {voc : Vocabulary} {c : Char} (h : isReservedChar c = false) :
    CharUse.of voc c = (voc.sign? c).elim .letter .sign := by
  obtain ⟨hblank, hdigit, hopening, hclosing, hpoint, hcomma⟩ := isReservedChar_eq_false_iff.mp h
  rw [of, if_neg (Bool.eq_false_iff.mp hblank), if_neg (Bool.eq_false_iff.mp hdigit),
    if_neg hpoint, if_neg hcomma, if_neg hopening, if_neg hclosing]
  cases voc.sign? c <;> rfl

/-- The use that is found for a character is one that it has. -/
theorem CharUse.is_of (voc : Vocabulary) (c : Char) : Is voc c (of voc c) := by
  cases hreserved : isReservedChar c with
  | false =>
    rw [of_not_reserved hreserved]
    cases hsign : voc.sign? c with
    | some op => exact .sign hsign
    | none => exact .letter hreserved hsign
  | true =>
    simp only [isReservedChar, Bool.or_eq_true, beq_iff_eq] at hreserved
    rw [of.eq_def]
    split
    case isTrue hblank => exact .blank hblank
    split
    case isTrue hdigit => exact .digit hdigit
    split
    case isTrue hpoint => exact .point hpoint
    split
    case isTrue hcomma => exact .comma hcomma
    split
    case isTrue hopening => exact .opening hopening
    split
    case isTrue hclosing => exact .closing hclosing
    simp_all

/-- A character has no other use than the one that is found. -/
theorem CharUse.Is.of_eq {voc : Vocabulary} {c : Char} {use : CharUse} (h : Is voc c use) :
    CharUse.of voc c = use := by
  cases h with
  | blank h => exact if_pos h
  | digit h => simp [of, not_isBlank_of_isDigit h, h]
  | point h => subst h; rfl
  | comma h => subst h; rfl
  | opening h => subst h; rfl
  | closing h => subst h; rfl
  | sign h =>
    rw [of_not_reserved (Vocabulary.not_isReservedChar_of_sign? h), h, Option.elim_some]
  | letter hreserved h => rw [of_not_reserved hreserved, h, Option.elim_none]

/-- Each character has exactly one use. -/
theorem CharUse.of_eq_iff {voc : Vocabulary} {c : Char} {use : CharUse} :
    CharUse.of voc c = use ↔ Is voc c use :=
  ⟨fun h ↦ h ▸ is_of voc c, Is.of_eq⟩

end Reckoner
