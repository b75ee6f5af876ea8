import Reckoner.Proofs.Expr.Descent
import Reckoner.Proofs.Token.Lexemes
import Reckoner.Proofs.Vocabulary.Lookup

/-!
# What characters write

Characters write some items if, wherever they stand on a line, their tokens mean these items one
after the other. A number, a word, a bracket and an operator write one item in front of what the
characters after them write, as long as these do not make the number or the word longer.
-/

namespace Reckoner

/-! ## Symbols that are words -/

namespace Vocabulary

variable {voc : Vocabulary} {symbol : String} {c : Char}

/-- The characters of a symbol that is a word are characters of words. -/
theorem isWordChar_of_mem_symbol (hsymbol : symbol ∈ voc.symbols) (hnamed : single? symbol = none)
    (hc : c ∈ symbol.toList) : voc.isWordChar c = true := by
  have hrecognisable := isRecognisable_of_mem hsymbol
  simp only [Definitions.isRecognisable, hnamed, Option.isSome_none, Bool.false_or,
    Bool.and_eq_true, Bool.not_eq_true', List.any_eq_false] at hrecognisable
  have hreserved : isReservedChar c = false := not_isReservedChar hsymbol hc
  have hsign : voc.sign? c = none := by
    refine Option.eq_none_iff_forall_ne_some.mpr fun op hop ↦ ?_
    have hinstant : c ∈ voc.instantChars := List.mem_filterMap.mpr (exists_symbol_of_sign? hop)
    exact hrecognisable.2 c hc (List.contains_iff_mem.mpr hinstant)
  exact isWordChar_iff.mpr (.inl (CharUse.Is.letter hreserved hsign).of_eq)

theorem toList_ne_nil_of_mem (hsymbol : symbol ∈ voc.symbols) : symbol.toList ≠ [] := by
  have hrecognisable := isRecognisable_of_mem hsymbol
  simp only [Definitions.isRecognisable, Bool.and_eq_true, Bool.not_eq_true'] at hrecognisable
  intro hnil
  rw [String.toList_eq_nil_iff] at hnil
  subst hnil
  cases hrecognisable.1.1

/-- A symbol has the meaning of its operator, and no blank makes it longer. -/
theorem exists_denotes_of_resolve? {op : Operator} (scope : Scope)
    (h : voc.resolve? symbol = some op) :
    ∃ belongs, voc.Denotes scope symbol.toList (.operator op) belongs ∧ Stops belongs [] ∧
      ∀ line, Stops belongs (' ' :: line) := by
  rw [resolve?] at h
  split at h
  · rename_i c hsingle
    rw [toList_eq_of_single? hsingle]
    exact ⟨_, .sign h, fun _ ↦ nofun, fun _ _ _ ↦ rfl⟩
  · rename_i hsingle
    have hsymbol := mem_symbols_of_named? h
    have hmeans : voc.named? (String.ofList symbol.toList) = some op := by
      rwa [String.ofList_toList]
    exact ⟨_, .operator (toList_ne_nil_of_mem hsymbol)
      (fun c ↦ isWordChar_of_mem_symbol hsymbol hsingle) hmeans, Parts.nil.word,
      fun _ ↦ Parts.space.word⟩

end Vocabulary

/-! ## Items in front of others -/

/-- Wherever they stand, the characters write some items. -/
def Vocabulary.Writes (voc : Vocabulary) (scope : Scope) (line : List Char) (items : List Item) :
    Prop :=
  ∀ index, ∃ lexemes, (Token.scan voc index .none line).mapM (Token.lexeme voc scope) =
    .ok lexemes ∧ lexemes.map Lexeme.item = items

namespace Vocabulary.Writes

variable {voc : Vocabulary} {scope : Scope} {line line' text : List Char} {items : List Item}
  {item : Item} {c : Char} {op : Operator}

theorem nil : voc.Writes scope [] [] := fun _ ↦ ⟨[], rfl, rfl⟩

/-- The characters of a lexeme write one item. -/
theorem token {belongs : Char → Bool} (htext : voc.Denotes scope text item belongs)
    (hstops : Stops belongs line) (h : voc.Writes scope line items) :
    voc.Writes scope (text ++ line) (item :: items) := by
  intro index
  obtain ⟨kind, hscan, hitem⟩ := htext.exists_scan_eq hstops index
  obtain ⟨lexemes, hlexemes, rfl⟩ := h (index + text.length)
  rw [hscan]
  exact ⟨_, Token.mapM_lexeme_cons_eq_ok_iff.mpr ⟨item, lexemes, hitem, hlexemes, rfl⟩, rfl⟩

theorem blank (hc : isBlank c = true) (h : voc.Writes scope line items) :
    voc.Writes scope (c :: line) items := by
  intro index
  rw [Token.scan_cons (OpenToken.step_none_blank hc)]
  exact h (index + 1)

theorem opening (h : voc.Writes scope line items) :
    voc.Writes scope ('(' :: line) (.opening :: items) := h.token .opening fun _ _ ↦ rfl

theorem closing (h : voc.Writes scope line items) :
    voc.Writes scope (')' :: line) (.closing :: items) := h.token .closing fun _ _ ↦ rfl

theorem sign (hc : voc.sign? c = some op) (h : voc.Writes scope line items) :
    voc.Writes scope (c :: line) (.operator op :: items) := h.token (.sign hc) fun _ _ ↦ rfl

/-- A number that does not go on. -/
theorem number (htext : IsNumeral text) (hstops : Stops isNumberChar line)
    (h : voc.Writes scope line items) :
    voc.Writes scope (text ++ line) (.number (readDecimal (text.filter (· ≠ ','))) :: items) :=
  h.token (.number htext) hstops

/-- A word that does not go on and names an operator. -/
theorem word (hne : text ≠ []) (htext : ∀ c ∈ text, voc.isWordChar c = true)
    (hstops : Stops voc.isWordChar line) (hnamed : voc.named? (String.ofList text) = some op)
    (h : voc.Writes scope line items) :
    voc.Writes scope (text ++ line) (.operator op :: items) :=
  h.token (.operator hne htext hnamed) hstops

/-- The symbol of an operator, which does not go on if it is a word. -/
theorem symbol {symbol : String} (hsymbol : symbol ∈ voc.symbols)
    (hsign : ∀ c, single? symbol = some c → voc.sign? c = some op)
    (hnamed : single? symbol = none → voc.named? symbol = some op)
    (hstops : single? symbol = none → Stops voc.isWordChar line)
    (h : voc.Writes scope line items) :
    voc.Writes scope (symbol.toList ++ line) (.operator op :: items) := by
  cases hsingle : single? symbol with
  | some c =>
    rw [toList_eq_of_single? hsingle]
    exact h.sign (hsign c hsingle)
  | none =>
    have hmeans : voc.named? (String.ofList symbol.toList) = some op := by
      rw [String.ofList_toList, hnamed hsingle]
    exact h.word (toList_ne_nil_of_mem hsymbol) (fun c ↦ isWordChar_of_mem_symbol hsymbol hsingle)
      (hstops hsingle) hmeans

end Vocabulary.Writes

end Reckoner
