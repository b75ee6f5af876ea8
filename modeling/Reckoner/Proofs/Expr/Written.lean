import Reckoner.Expr.Text
import Reckoner.Proofs.Expr.Agreement
import Reckoner.Proofs.Expr.Built
import Reckoner.Proofs.Number.Numeral
import Reckoner.Proofs.Token.Writing
import Reckoner.Vocabulary.Standard

/-!
# The written form is read back

In its written form an expression has a bracket around every operation, and a named operator before
its operand has one around the operand. Read as a line, the written form is that expression again,
up to the places of its parts: what stands in a bracket is read without a context, and the one
expression that begins without a bracket, a named operator in front of one, binds what is in the
bracket before whatever follows.
-/

namespace Reckoner

open Descent

/-! ## Expressions without places -/

namespace Expr

/-- The expression without the places that its parts were read from. -/
def unplaced : Expr → Expr
  | literal value _ => literal value ⟨0, 0⟩
  | unary op operand _ => unary op operand.unplaced ⟨0, 0⟩
  | binary op left right _ => binary op left.unplaced right.unplaced ⟨0, 0⟩

/-- The numbers, constants and variables in an expression, by their values. -/
def literals : Expr → List Float
  | literal value _ => [value]
  | unary _ operand _ => operand.literals
  | binary _ left right _ => left.literals ++ right.literals

/-- All operators in an expression are of a vocabulary. -/
def IsOver (voc : Vocabulary) : Expr → Prop
  | literal _ _ => True
  | unary op operand _ => op ∈ voc.unary ∧ operand.IsOver voc
  | binary op left right _ => op ∈ voc.binary ∧ left.IsOver voc ∧ right.IsOver voc

/-- What the characters of the written form mean. -/
def items : Expr → List Item
  | literal value _ => [.number value]
  | unary op operand _ =>
    match op.side, op.isInstant with
    | .before, true => .opening :: .operator (.beside op) :: operand.items ++ [.closing]
    | .before, false => .operator (.beside op) :: .opening :: operand.items ++ [.closing]
    | .after, _ => .opening :: operand.items ++ [.operator (.beside op), .closing]
  | binary op left right _ =>
    .opening :: left.items ++ .operator (.between op) :: right.items ++ [.closing]

theorem unplaced_unary_eq {expr expr' : Expr} (h : expr.unplaced = expr'.unplaced)
    (op : UnaryOperator) (span span' : Span) :
    (unary op expr span).unplaced = (unary op expr' span').unplaced := by
  rw [unplaced, unplaced, h]

theorem unplaced_binary_eq {left left' right right' : Expr}
    (hleft : left.unplaced = left'.unplaced) (hright : right.unplaced = right'.unplaced)
    (op : BinaryOperator) (span span' : Span) :
    (binary op left right span).unplaced = (binary op left' right' span').unplaced := by
  rw [unplaced, unplaced, hleft, hright]

theorem height_unplaced (expr : Expr) : expr.unplaced.height = expr.height := by
  induction expr with
  | literal => rfl
  | unary op operand span ih => simp only [unplaced, height, ih]
  | binary op left right span ihleft ihright => simp only [unplaced, height, ihleft, ihright]

/-- What is built on a line has operators of the vocabulary. -/
theorem Built.isOver {voc : Vocabulary} {length : Nat} {expr : Expr} (h : expr.Built voc length) :
    expr.IsOver voc := by
  induction h with
  | literal => trivial
  | between hop _ _ _ ihleft ihright => exact ⟨hop, ihleft, ihright⟩
  | before hop _ _ ih => exact ⟨hop, ih⟩
  | after hop _ _ _ ih => exact ⟨hop, ih⟩

end Expr

/-- No symbol is that of an operator with two operands and of one with one operand, and every
operator behind a value yields to a named operator that is applied to a bracket. -/
structure Vocabulary.IsBracketed (voc : Vocabulary) : Prop where
  distinct : ∀ op ∈ voc.binary, ∀ op' ∈ voc.unary, op.symbol ≠ op'.symbol
  leftToRight : ∀ op ∈ voc.binary, op.associativity = .leftToRight → op.order ≤ bracketOrder
  rightToLeft : ∀ op ∈ voc.binary, op.associativity = .rightToLeft → op.order < bracketOrder
  after : ∀ op ∈ voc.unary, op.side = .after → op.order ≤ bracketOrder

theorem Vocabulary.IsBracketed.yieldsTo {voc : Vocabulary} (h : voc.IsBracketed)
    {op : BinaryOperator} (hop : op ∈ voc.binary) : op.yieldsTo bracketOrder = true := by
  rw [BinaryOperator.yieldsTo]
  cases hassociativity : op.associativity with
  | leftToRight => exact decide_eq_true (h.leftToRight op hop hassociativity)
  | rightToLeft => exact decide_eq_true (h.rightToLeft op hop hassociativity)

/-! ## Reading the items -/

/-- Lexemes behind a bracket do not attach to what is in it before a named operator in front of it
does. -/
def Releases (voc : Vocabulary) (lexemes : List Lexeme) : Prop :=
  ∀ expr, readOn voc (some bracketOrder) expr lexemes = some (expr, lexemes)

/-- Lexemes that begin with the items of the written form begin with the expression, if the others
do not attach to a bracket. -/
def Expr.IsReadBack (voc : Vocabulary) (expr : Expr) : Prop :=
  ∀ ⦃lexemes items⦄, lexemes.map Lexeme.item = expr.items ++ items →
    ∃ others, others.map Lexeme.item = items ∧ (Releases voc others →
      ∃ expr', readPrimary voc lexemes = some (expr', others) ∧ expr'.unplaced = expr.unplaced)

section

variable {voc : Vocabulary} {context : Option Nat} {expr expr' : Expr} {span span' : Span}
  {items lexemes others rest : List Lexeme} {op : BinaryOperator} {op₁ : UnaryOperator}

theorem readOn_closing (context : Option Nat) (expr : Expr) :
    readOn voc context expr (⟨.closing, span⟩ :: others) =
      some (expr, ⟨.closing, span⟩ :: others) := readOn_of_nothing rfl

theorem releases_nil : Releases voc [] := fun _ ↦ readOn_of_nothing rfl

theorem releases_closing : Releases voc (⟨.closing, span⟩ :: others) :=
  fun expr ↦ readOn_closing _ expr

theorem releases_between (h : op.yieldsTo bracketOrder = true) :
    Releases voc (⟨.operator (.between op), span⟩ :: others) :=
  fun _ ↦ readOn_between_of_yieldsTo rfl h

theorem releases_after (hside : op₁.side = .after) (h : op₁.order ≤ bracketOrder) :
    Releases voc (⟨.operator (.beside op₁), span⟩ :: others) :=
  fun _ ↦ readOn_after_of_yieldsTo (arrival_after hside _ _) (decide_eq_true h)

/-- An operand that is a primary and goes on with nothing. -/
theorem readOperand_of_readPrimary (h : readPrimary voc items = some (expr, rest)) :
    readOperand voc context items = readOn voc context expr rest := by
  rw [readOperand_eq_bind, h, Option.bind_some]

/-- An operand that is a primary in front of a closing bracket. -/
theorem readOperand_of_closing
    (h : readPrimary voc items = some (expr, ⟨.closing, span⟩ :: others)) :
    readOperand voc context items = some (expr, ⟨.closing, span⟩ :: others) := by
  rw [readOperand_of_readPrimary h, readOn_closing]

/-- What is read up to the closing bracket is read in the bracket. -/
theorem readPrimary_bracket
    (h : readOperand voc none lexemes = some (expr, ⟨.closing, span'⟩ :: others)) :
    readPrimary voc (⟨.opening, span⟩ :: lexemes) = some (expr, others) := by
  rw [readPrimary_opening, h]
  rfl

/-- The first lexeme has the first item. -/
theorem exists_cons_of_map_eq {item : Item} {rest : List Item}
    (h : lexemes.map Lexeme.item = item :: rest) :
    ∃ span others, lexemes = ⟨item, span⟩ :: others ∧ others.map Lexeme.item = rest := by
  obtain ⟨⟨item, span⟩, others, rfl, rfl, hrest⟩ := List.map_eq_cons_iff.mp h
  exact ⟨span, others, rfl, hrest⟩

theorem isReadBack_literal (value : Float) : (Expr.literal value span).IsReadBack voc := by
  intro lexemes items hitems
  obtain ⟨span', others, rfl, hothers⟩ := exists_cons_of_map_eq hitems
  exact ⟨others, hothers, fun _ ↦ ⟨_, readPrimary_number value, rfl⟩⟩

/-- An operator of one character before its operand. -/
theorem isReadBack_before (hside : op₁.side = .before) (hinstant : op₁.isInstant = true)
    (h : expr.IsReadBack voc) : (Expr.unary op₁ expr span).IsReadBack voc := by
  intro lexemes items hitems
  simp only [Expr.items, hside, hinstant, List.cons_append, List.append_assoc] at hitems
  obtain ⟨span₁, lexemes₁, rfl, htail₁⟩ := exists_cons_of_map_eq hitems
  obtain ⟨span₂, lexemes₂, rfl, htail₂⟩ := exists_cons_of_map_eq htail₁
  obtain ⟨others, hothers, hread⟩ := h htail₂
  obtain ⟨span₃, rest, rfl, hrest⟩ := exists_cons_of_map_eq hothers
  obtain ⟨expr', hexpr', heq⟩ := hread releases_closing
  refine ⟨rest, hrest, fun _ ↦ ⟨.unary op₁ expr' ⟨span₂.start, expr'.span.stop⟩, ?_,
    Expr.unplaced_unary_eq heq op₁ _ _⟩⟩
  have hbefore : readPrimary voc (⟨.operator (.beside op₁), span₂⟩ :: lexemes₂) =
      some (.unary op₁ expr' ⟨span₂.start, expr'.span.stop⟩, ⟨.closing, span₃⟩ :: rest) := by
    rw [readPrimary_before hside, readOperand_of_closing hexpr']
    rfl
  exact readPrimary_bracket (readOperand_of_closing hbefore)

/-- A named operator before its operand, which is in a bracket and is read no further. -/
theorem isReadBack_named (hside : op₁.side = .before) (hnamed : op₁.isInstant = false)
    (h : expr.IsReadBack voc) : (Expr.unary op₁ expr span).IsReadBack voc := by
  intro lexemes items hitems
  simp only [Expr.items, hside, hnamed, List.cons_append, List.append_assoc] at hitems
  obtain ⟨span₁, lexemes₁, rfl, htail₁⟩ := exists_cons_of_map_eq hitems
  obtain ⟨span₂, lexemes₂, rfl, htail₂⟩ := exists_cons_of_map_eq htail₁
  obtain ⟨others, hothers, hread⟩ := h htail₂
  obtain ⟨span₃, rest, rfl, hrest⟩ := exists_cons_of_map_eq hothers
  obtain ⟨expr', hexpr', heq⟩ := hread releases_closing
  refine ⟨rest, hrest, fun hreleases ↦ ⟨.unary op₁ expr' ⟨span₁.start, expr'.span.stop⟩, ?_,
    Expr.unplaced_unary_eq heq op₁ _ _⟩⟩
  have hbracket : readPrimary voc (⟨.opening, span₂⟩ :: lexemes₂) = some (expr', rest) :=
    readPrimary_bracket (readOperand_of_closing hexpr')
  have horder : orderBefore op₁ (⟨.opening, span₂⟩ :: lexemes₂) = bracketOrder := by
    rw [orderBefore, hnamed]
    rfl
  rw [readPrimary_before hside, horder, readOperand_of_readPrimary hbracket, hreleases expr']
  rfl

/-- An operator after its operand. -/
theorem isReadBack_after (hside : op₁.side = .after) (horder : op₁.order ≤ bracketOrder)
    (h : expr.IsReadBack voc) : (Expr.unary op₁ expr span).IsReadBack voc := by
  intro lexemes items hitems
  simp only [Expr.items, hside, List.cons_append, List.append_assoc] at hitems
  obtain ⟨span₁, lexemes₁, rfl, htail₁⟩ := exists_cons_of_map_eq hitems
  obtain ⟨others, hothers, hread⟩ := h htail₁
  obtain ⟨span₂, closed, rfl, hclosed⟩ := exists_cons_of_map_eq hothers
  obtain ⟨span₃, rest, rfl, hrest⟩ := exists_cons_of_map_eq hclosed
  obtain ⟨expr', hexpr', heq⟩ := hread (releases_after hside horder)
  refine ⟨rest, hrest, fun _ ↦ ⟨.unary op₁ expr' ⟨expr'.span.start, span₂.stop⟩, ?_,
    Expr.unplaced_unary_eq heq op₁ _ _⟩⟩
  have hinside : readOperand voc none lexemes₁ =
      some (.unary op₁ expr' ⟨expr'.span.start, span₂.stop⟩, ⟨.closing, span₃⟩ :: rest) := by
    rw [readOperand_of_readPrimary hexpr', readOn_after (arrival_after hside _ _) rfl,
      readOn_closing]
  exact readPrimary_bracket hinside

/-- An operator between two operands. -/
theorem isReadBack_binary {left right : Expr} (hyields : op.yieldsTo bracketOrder = true)
    (hleft : left.IsReadBack voc) (hright : right.IsReadBack voc) :
    (Expr.binary op left right span).IsReadBack voc := by
  intro lexemes items hitems
  simp only [Expr.items, List.cons_append, List.append_assoc] at hitems
  obtain ⟨span₁, lexemes₁, rfl, htail₁⟩ := exists_cons_of_map_eq hitems
  obtain ⟨others, hothers, hreadleft⟩ := hleft htail₁
  obtain ⟨span₂, lexemes₂, rfl, htail₂⟩ := exists_cons_of_map_eq hothers
  obtain ⟨closed, hclosed, hreadright⟩ := hright htail₂
  obtain ⟨span₃, rest, rfl, hrest⟩ := exists_cons_of_map_eq hclosed
  obtain ⟨left', hleft', heqleft⟩ := hreadleft (releases_between hyields)
  obtain ⟨right', hright', heqright⟩ := hreadright releases_closing
  refine ⟨rest, hrest, fun _ ↦ ⟨.binary op left' right' (left'.span.hull right'.span), ?_,
    Expr.unplaced_binary_eq heqleft heqright op _ _⟩⟩
  have hinside : readOperand voc none lexemes₁ =
      some (.binary op left' right' (left'.span.hull right'.span), ⟨.closing, span₃⟩ :: rest) := by
    rw [readOperand_of_readPrimary hleft', readOn_between rfl rfl,
      readOperand_of_closing hright', Option.bind_some, readOn_closing]
  exact readPrimary_bracket hinside

/-- Every expression over a vocabulary is read back from the items of its written form. -/
theorem isReadBack_of_isOver (hvoc : voc.IsBracketed) (h : expr.IsOver voc) :
    expr.IsReadBack voc := by
  induction expr with
  | literal value span => exact isReadBack_literal value
  | unary op operand span ih =>
    obtain ⟨hop, hoperand⟩ := h
    cases hside : op.side with
    | before =>
      cases hinstant : op.isInstant with
      | true => exact isReadBack_before hside hinstant (ih hoperand)
      | false => exact isReadBack_named hside hinstant (ih hoperand)
    | after => exact isReadBack_after hside (hvoc.after op hop hside) (ih hoperand)
  | binary op left right span ihleft ihright =>
    obtain ⟨hop, hleft, hright⟩ := h
    exact isReadBack_binary (hvoc.yieldsTo hop) (ihleft hleft) (ihright hright)

end

/-! ## Writing the items -/

section

variable {voc : Vocabulary} {scope : Scope} {line : List Char} {items : List Item}

/-- No symbol goes on with a number. -/
theorem stops_symbol {symbol : String} (hsymbol : symbol ∈ voc.symbols) (line : List Char) :
    Stops isNumberChar (symbol.toList ++ line) := by
  intro c hc
  rw [List.head?_append_of_ne_nil _ (Vocabulary.toList_ne_nil_of_mem hsymbol)] at hc
  have hmem : c ∈ symbol.toList := List.mem_of_mem_head? hc
  obtain ⟨-, hdigit, -, -, hpoint, hcomma⟩ :=
    isReservedChar_eq_false_iff.mp (Vocabulary.not_isReservedChar hsymbol hmem)
  simp [isNumberChar, hdigit, hpoint, hcomma]

theorem Vocabulary.Writes.space (h : voc.Writes scope line items) :
    voc.Writes scope (' ' :: line) items := h.blank (by decide)

/-- Digits with at most one point. -/
theorem Vocabulary.Writes.positional {text : List Char} (htext : IsPositional text)
    (hstops : Stops isNumberChar line) (h : voc.Writes scope line items) :
    voc.Writes scope (text ++ line) (.number (readDecimal text) :: items) := by
  have hfilter : text.filter (· ≠ ',') = text :=
    List.filter_eq_self.mpr fun c hc ↦ decide_eq_true (htext.ne_comma c hc)
  have hwrites := h.number htext.isNumeral hstops
  rwa [hfilter] at hwrites

/-- The symbol of an operator between two operands. -/
theorem Vocabulary.Writes.between (hvoc : voc.IsBracketed) {op : BinaryOperator}
    (hop : op ∈ voc.binary) (hstops : Stops voc.isWordChar line)
    (h : voc.Writes scope line items) :
    voc.Writes scope (op.symbol.toList ++ line) (.operator (.between op) :: items) := by
  have hsymbol : op.symbol ∈ voc.symbols := List.mem_append_left _ (List.mem_map_of_mem hop)
  refine h.symbol hsymbol (fun c hc ↦ sign?_of_binary hop hc) (fun hnone ↦ ?_) fun _ ↦ hstops
  have hnamed : op.isInstant = false := by rw [BinaryOperator.isInstant, hnone]; rfl
  exact named?_of_binary hop hnamed fun op' hop' heq ↦ hvoc.distinct op hop op' hop' heq.symm

/-- The symbol of an operator beside its operand. -/
theorem Vocabulary.Writes.beside (hvoc : voc.IsBracketed) {op : UnaryOperator}
    (hop : op ∈ voc.unary) (hstops : op.isInstant = false → Stops voc.isWordChar line)
    (h : voc.Writes scope line items) :
    voc.Writes scope (op.symbol.toList ++ line) (.operator (.beside op) :: items) := by
  have hsymbol : op.symbol ∈ voc.symbols := List.mem_append_right _ (List.mem_map_of_mem hop)
  have hinstant (hnone : single? op.symbol = none) : op.isInstant = false := by
    rw [UnaryOperator.isInstant, hnone]
    rfl
  refine h.symbol hsymbol (fun c hc ↦ ?_) (fun hnone ↦ ?_) fun hnone ↦ hstops (hinstant hnone)
  · exact sign?_of_unary hop hc fun op' hop' ↦ hvoc.distinct op' hop' op hop
  · exact named?_of_unary hop (hinstant hnone)

/-- The characters of the written form write its items, in front of characters that do not make a
number longer. -/
def Expr.IsWritten (voc : Vocabulary) (scope : Scope) (expr : Expr) : Prop :=
  ∀ ⦃line items⦄, Stops isNumberChar line → voc.Writes scope line items →
    voc.Writes scope (expr.text ++ line) (expr.items ++ items)

/-- A number that is read back as itself. -/
theorem isWritten_literal {value : Float} {span : Span} (hunsigned : isUnsigned value = true)
    (hread : readDecimal (shortestText value) = value) :
    (Expr.literal value span).IsWritten voc scope := by
  intro line items hstops hline
  have hwrites := hline.positional (isPositional_shortestText hunsigned) hstops
  rwa [hread] at hwrites

/-- An operator beside its operand, in each of the four forms. -/
theorem isWritten_unary (hvoc : voc.IsBracketed) {op : UnaryOperator} (hop : op ∈ voc.unary)
    {operand : Expr} {span : Span} (h : operand.IsWritten voc scope) :
    (Expr.unary op operand span).IsWritten voc scope := by
  intro line items hstops hline
  have hparts : voc.Parts (')' :: line) := .closing
  have hclosed := h hparts.number hline.closing
  cases hside : op.side with
  | before =>
    cases hinstant : op.isInstant with
    | true =>
      simp only [Expr.text, Expr.items, hside, hinstant, List.cons_append, List.append_assoc,
        List.nil_append]
      have hsymbol := hclosed.beside hvoc hop fun hnamed ↦ by rw [hinstant] at hnamed; cases hnamed
      exact hsymbol.opening
    | false =>
      simp only [Expr.text, Expr.items, hside, hinstant, List.cons_append, List.append_assoc,
        List.nil_append]
      exact hclosed.opening.beside hvoc hop fun _ ↦ Vocabulary.Parts.opening.word
  | after =>
    have hsymbol := hline.closing.beside hvoc hop fun _ ↦ hparts.word
    cases hinstant : op.isInstant with
    | true =>
      simp only [Expr.text, Expr.items, hside, hinstant, List.cons_append, List.append_assoc,
        List.nil_append]
      have hmem : op.symbol ∈ voc.symbols := List.mem_append_right _ (List.mem_map_of_mem hop)
      exact (h (stops_symbol hmem _) hsymbol).opening
    | false =>
      simp only [Expr.text, Expr.items, hside, hinstant, List.cons_append, List.append_assoc,
        List.nil_append]
      have hspace : voc.Parts (' ' :: (op.symbol.toList ++ ')' :: line)) := .space
      exact (h hspace.number hsymbol.space).opening

/-- An operator between its operands, with a blank on both sides. -/
theorem isWritten_binary (hvoc : voc.IsBracketed) {op : BinaryOperator} (hop : op ∈ voc.binary)
    {left right : Expr} {span : Span} (hleft : left.IsWritten voc scope)
    (hright : right.IsWritten voc scope) : (Expr.binary op left right span).IsWritten voc scope := by
  intro line items hstops hline
  simp only [Expr.text, Expr.items, List.cons_append, List.append_assoc, List.nil_append]
  have hparts : voc.Parts (')' :: line) := .closing
  have hclosed := hright hparts.number hline.closing
  have hsymbol := hclosed.space.between hvoc hop Vocabulary.Parts.space.word
  have hspace : voc.Parts (' ' :: (op.symbol.toList ++ ' ' :: (right.text ++ ')' :: line))) :=
    .space
  exact (hleft hspace.number hsymbol.space).opening

/-- The written form of every expression over a vocabulary is made up of its items. -/
theorem isWritten_of_isOver (hvoc : voc.IsBracketed) {expr : Expr} (h : expr.IsOver voc)
    (hunsigned : ∀ value ∈ expr.literals, isUnsigned value = true)
    (hread : ∀ value ∈ expr.literals, readDecimal (shortestText value) = value) :
    expr.IsWritten voc scope := by
  induction expr with
  | literal value span =>
    have hvalue : value ∈ (Expr.literal value span).literals := List.mem_singleton_self value
    exact isWritten_literal (hunsigned value hvalue) (hread value hvalue)
  | unary op operand span ih => exact isWritten_unary hvoc h.1 (ih h.2 hunsigned hread)
  | binary op left right span ihleft ihright =>
    obtain ⟨hop, hleft, hright⟩ := h
    rw [Expr.literals] at hunsigned hread
    simp only [List.mem_append] at hunsigned hread
    exact isWritten_binary hvoc hop
      (ihleft hleft (fun value hvalue ↦ hunsigned value (.inl hvalue))
        fun value hvalue ↦ hread value (.inl hvalue))
      (ihright hright (fun value hvalue ↦ hunsigned value (.inr hvalue))
        fun value hvalue ↦ hread value (.inr hvalue))

end

namespace Vocabulary

variable {voc : Vocabulary} {scope : Scope} {line : Line} {expr : Expr}

/-- The expression on a line is read back from its written form, up to the places of its parts, if
its numbers have no sign and are read back. -/
theorem exists_parse_text (hvoc : voc.IsBracketed) (hparse : voc.parse scope line = .ok expr)
    (hunsigned : ∀ value ∈ expr.literals, isUnsigned value = true)
    (hread : ∀ value ∈ expr.literals, readDecimal (shortestText value) = value) :
    ∃ expr', voc.parse .bare expr.text = .ok expr' ∧ expr'.unplaced = expr.unplaced := by
  have hover : expr.IsOver voc := (built_of_parse hparse).isOver
  have hstops : Stops isNumberChar [] := fun c hc ↦ by cases hc
  have hwritten : expr.IsWritten voc .bare := isWritten_of_isOver hvoc hover hunsigned hread
  obtain ⟨lexemes, hlexemes, hitems⟩ := hwritten hstops .nil 0
  obtain ⟨others, hothers, hreads⟩ := isReadBack_of_isOver hvoc hover hitems
  cases List.map_eq_nil_iff.mp hothers
  obtain ⟨expr', hprimary, heq⟩ := hreads releases_nil
  rw [List.append_nil] at hlexemes
  have hheight : expr'.height ≤ heightLimit := by
    rw [← expr'.height_unplaced, heq, expr.height_unplaced]
    exact (parse_eq_ok_iff_awaiting.mp hparse).2
  refine ⟨expr', parse_eq_ok_iff_awaiting.mpr ⟨⟨lexemes, hlexemes, ?_⟩, hheight⟩, heq⟩
  rw [awaiting_eq_of_readPrimary_eq_some hprimary, holding_nil]
  rfl

/-- The standard operators keep the conditions. -/
theorem isBracketed_standard : standard.IsBracketed where
  distinct := by decide +kernel
  leftToRight := by decide +kernel
  rightToLeft := by decide +kernel
  after := by decide +kernel

/-- A line with operators of all forms, a constant and an operator that is not written. -/
theorem exists_parse_text_standard :
    standard.IsBracketed ∧
      ∃ expr, standard.parse .bare "sqrt(2)^3! - 4 degree mod 0.5pi%".toList = .ok expr ∧
        (∀ value ∈ expr.literals, isUnsigned value = true) ∧
        (∀ value ∈ expr.literals, readDecimal (shortestText value) = value) ∧
        ∃ expr', standard.parse .bare expr.text = .ok expr' ∧ expr'.unplaced = expr.unplaced := by
  have hchecked : (standard.parse .bare "sqrt(2)^3! - 4 degree mod 0.5pi%".toList).toOption.any
      (fun expr ↦ expr.literals.all fun value ↦
        isUnsigned value && decide (readDecimal (shortestText value) = value)) = true := by
    decide +kernel
  obtain ⟨expr, hparse, hliterals⟩ := (Option.any_eq_true _ _).mp hchecked
  rw [toOption_eq_some_iff] at hparse
  have hvalues (value : Float) (hvalue : value ∈ expr.literals) :
      isUnsigned value = true ∧ readDecimal (shortestText value) = value := by
    simpa using List.all_eq_true.mp hliterals value hvalue
  have hunsigned := fun value hvalue ↦ (hvalues value hvalue).1
  have hread := fun value hvalue ↦ (hvalues value hvalue).2
  exact ⟨isBracketed_standard, expr, hparse, hunsigned, hread,
    exists_parse_text isBracketed_standard hparse hunsigned hread⟩

end Vocabulary

end Reckoner
