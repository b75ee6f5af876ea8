import Reckoner.Proofs.Token.Lexemes

/-!
# The spelling of a line

What the characters of a line spell, said without a scanner: runs of characters that cannot be made
longer and single signs, each with its form and its meaning. A line spells what the meanings of its
tokens are, and nothing where one of them has none.
-/

namespace Reckoner

/-- The form of a word: an operator beside an operand, else one between two, else a constant, else a
variable. -/
def Vocabulary.wordTerminal? (voc : Vocabulary) (scope : Scope) (word : String) :
    Option Terminal :=
  match voc.unaryByName? word, voc.binaryByName? word, constant? word, scope.lookup? word with
  | some op, _, _, _ => some op.side.terminal
  | none, some _, _, _ => some .between
  | none, none, some _, _ => some .value
  | none, none, none, some _ => some .value
  | none, none, none, none => none

/-- The characters of a line spell some terminals. -/
inductive Vocabulary.Spells (voc : Vocabulary) (scope : Scope) :
    List Char → List Terminal → Prop
  | nil : Spells voc scope [] []
  | blank {c : Char} {line : List Char} {terminals : List Terminal} (hc : isBlank c = true)
    (h : Spells voc scope line terminals) : Spells voc scope (c :: line) terminals
  | opening {line : List Char} {terminals : List Terminal}
    (h : Spells voc scope line terminals) : Spells voc scope ('(' :: line) (.opening :: terminals)
  | closing {line : List Char} {terminals : List Terminal}
    (h : Spells voc scope line terminals) : Spells voc scope (')' :: line) (.closing :: terminals)
  | sign {c : Char} {terminal : Terminal} {line : List Char} {terminals : List Terminal}
    (hc : voc.signTerminal? c = some terminal) (h : Spells voc scope line terminals) :
    Spells voc scope (c :: line) (terminal :: terminals)
  | number {text line : List Char} {terminals : List Terminal} (htext : IsNumeral text)
    (hstops : Stops isNumberChar line) (h : Spells voc scope line terminals) :
    Spells voc scope (text ++ line) (.number :: terminals)
  | word {text line : List Char} {terminal : Terminal} {terminals : List Terminal}
    (hne : text ≠ []) (htext : ∀ c ∈ text, voc.isWordChar c = true)
    (hstops : Stops voc.isWordChar line)
    (hmeans : voc.wordTerminal? scope (String.ofList text) = some terminal)
    (h : Spells voc scope line terminals) :
    Spells voc scope (text ++ line) (terminal :: terminals)

variable {voc : Vocabulary} {scope : Scope} {index : Nat} {line : List Char}
  {terminal : Terminal} {terminals : List Terminal} {lexemes : List Lexeme}

/-! ## The meaning of tokens -/

/-- The form of a word is that of the operator or value that it means. -/
theorem Token.wordTerminal?_eq (name : String) (span : Span) : voc.wordTerminal? scope name =
    ((⟨.word name, span⟩ : Token).item voc scope).toOption.map Item.terminal := by
  simp only [Token.item, Vocabulary.named?, Scope.value?, Vocabulary.wordTerminal?]
  cases voc.unaryByName? name with
  | some op => rfl
  | none =>
    cases voc.binaryByName? name with
    | some op => rfl
    | none =>
      cases constant? name with
      | some value => rfl
      | none => cases scope.lookup? name <;> rfl

/-- A word has a form if it has a meaning, the form of what it means. -/
theorem Token.wordTerminal?_eq_some_iff {name : String} (span : Span) :
    voc.wordTerminal? scope name = some terminal ↔ ∃ item,
      (⟨.word name, span⟩ : Token).item voc scope = .ok item ∧ item.terminal = terminal := by
  rw [wordTerminal?_eq name span]
  cases (⟨.word name, span⟩ : Token).item voc scope <;> simp [Except.toOption]

/-- Tokens have meanings of these forms. -/
def Token.Mean (voc : Vocabulary) (scope : Scope) (tokens : List Token)
    (terminals : List Terminal) : Prop :=
  ∃ items, tokens.mapM (Token.lexeme voc scope) = .ok items ∧
    items.map Lexeme.terminal = terminals

/-! ## Lines and their lexemes -/

namespace Vocabulary

/-- A line has lexemes of the forms that it spells. -/
theorem Spells.exists_lexes (h : voc.Spells scope line terminals) :
    ∀ index, ∃ lexemes, voc.Lexes scope index line lexemes ∧
      lexemes.map Lexeme.terminal = terminals := by
  induction h with
  | nil => exact fun _ ↦ ⟨[], .nil, rfl⟩
  | blank hc _ ih =>
    intro index
    obtain ⟨lexemes, hlexes, rfl⟩ := ih (index + 1)
    exact ⟨lexemes, .blank hc hlexes, rfl⟩
  | opening _ ih =>
    intro index
    obtain ⟨lexemes, hlexes, rfl⟩ := ih (index + 1)
    exact ⟨_, .token .opening (fun _ _ ↦ rfl) hlexes, rfl⟩
  | closing _ ih =>
    intro index
    obtain ⟨lexemes, hlexes, rfl⟩ := ih (index + 1)
    exact ⟨_, .token .closing (fun _ _ ↦ rfl) hlexes, rfl⟩
  | sign hc _ ih =>
    intro index
    obtain ⟨lexemes, hlexes, rfl⟩ := ih (index + 1)
    rw [signTerminal?_eq] at hc
    obtain ⟨op, hsign, rfl⟩ := Option.map_eq_some_iff.mp hc
    exact ⟨_, .token (.sign hsign) (fun _ _ ↦ rfl) hlexes, rfl⟩
  | @number text line terminals htext hstops _ ih =>
    intro index
    obtain ⟨lexemes, hlexes, rfl⟩ := ih (index + text.length)
    exact ⟨_, .token (.number htext) hstops hlexes, rfl⟩
  | @word text line terminal terminals hne htext hstops hmeans _ ih =>
    intro index
    obtain ⟨lexemes, hlexes, rfl⟩ := ih (index + text.length)
    obtain ⟨item, hitem, rfl⟩ := (Token.wordTerminal?_eq_some_iff ⟨0, 0⟩).mp hmeans
    exact ⟨_, .token (.of_item_word hne htext hitem) hstops hlexes, rfl⟩

/-- A line spells the forms of its lexemes. -/
theorem Lexes.spells (h : voc.Lexes scope index line lexemes) :
    voc.Spells scope line (lexemes.map Lexeme.terminal) := by
  induction h with
  | nil => exact .nil
  | blank hc _ ih => exact .blank hc ih
  | token htext hstops _ ih =>
    cases htext with
    | opening => exact .opening ih
    | closing => exact .closing ih
    | sign hc =>
      refine .sign ?_ ih
      rw [signTerminal?_eq, hc]
      rfl
    | number htext => exact .number htext hstops ih
    | operator hne htext hnamed =>
      refine .word hne htext hstops ((Token.wordTerminal?_eq_some_iff ⟨0, 0⟩).mpr ⟨_, ?_, rfl⟩) ih
      simp only [Token.item, hnamed]
    | value hne htext hnamed hvalue =>
      refine .word hne htext hstops ((Token.wordTerminal?_eq_some_iff ⟨0, 0⟩).mpr ⟨_, ?_, rfl⟩) ih
      simp only [Token.item, hnamed, hvalue]

/-- What a line spells are the forms of its tokens. -/
theorem spells_iff_mean {line : Line} : voc.Spells scope line terminals ↔
    Token.Mean voc scope (Token.ofLine voc line) terminals := by
  constructor
  · intro h
    obtain ⟨lexemes, hlexes, hterminals⟩ := h.exists_lexes 0
    exact ⟨lexemes, hlexes.mapM_scan, hterminals⟩
  · rintro ⟨lexemes, hlexemes, rfl⟩
    exact (Lexes.of_mapM_scan line hlexemes).spells

end Vocabulary

end Reckoner
