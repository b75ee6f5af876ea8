import Reckoner.Proofs.Vocabulary.Congruence
import Reckoner.Proofs.Vocabulary.Lookup
import Reckoner.Vocabulary.Standard

/-!
# One more operator

A vocabulary can be extended by an operator. On a line that does not have the symbol of the new
operator, nothing changes: its characters and words stand for what they stood for, and the operators
that are put in stay the same, since no second operator can take their roles.
-/

namespace Reckoner

/-- The symbol of an operator. -/
def Operator.symbol : Operator → String
  | .between op => op.symbol
  | .beside op => op.symbol

namespace Definitions

/-- One more operator. -/
def add (defs : Definitions) : Operator → Definitions
  | .between op => defs.addBinary op
  | .beside op => defs.addUnary op

end Definitions

/-- A line has a symbol: if the symbol is a character as a character, else as a whole word. -/
def Vocabulary.HasSymbol (voc : Vocabulary) (line : Line) (symbol : String) : Prop :=
  match single? symbol with
  | some c => c ∈ line
  | none => ∃ token ∈ Token.ofLine voc line, token.kind = .word symbol

/-- What was found in a list is still found after an entry that is not looked for was added. -/
theorem find?_concat_of_not {α : Type} {p : α → Bool} {a : α} (h : p a = false) (l : List α) :
    (l ++ [a]).find? p = l.find? p := by
  rw [List.find?_append, List.find?_singleton, h]
  exact Option.or_none

/-- One vocabulary is another with one more operator. -/
def Vocabulary.Extends (voc' voc : Vocabulary) (op : Operator) : Prop :=
  voc'.toDefinitions = voc.toDefinitions.add op

namespace Vocabulary.Extends

variable {voc voc' : Vocabulary} {op : Operator} {line : Line}

/-- The operators with two operands are the same, but for one that is not looked for. -/
theorem find?_binary_eq (h : voc'.Extends voc op) {p : BinaryOperator → Bool}
    (hp : ∀ binary, op = .between binary → p binary = false) :
    voc'.binary.find? p = voc.binary.find? p := by
  rw [show voc'.toDefinitions = _ from h]
  cases op with
  | between op => exact find?_concat_of_not (hp op rfl) _
  | beside op => rfl

/-- The operators with one operand are the same, but for one that is not looked for. -/
theorem find?_unary_eq (h : voc'.Extends voc op) {p : UnaryOperator → Bool}
    (hp : ∀ unary, op = .beside unary → p unary = false) :
    voc'.unary.find? p = voc.unary.find? p := by
  rw [show voc'.toDefinitions = _ from h]
  cases op with
  | between op => rfl
  | beside op => exact find?_concat_of_not (hp op rfl) _

/-- Another character stands for the same operator as before. -/
theorem sign?_eq (h : voc'.Extends voc op) {c : Char} (hc : single? op.symbol ≠ some c) :
    voc'.sign? c = voc.sign? c := by
  have hbinary : voc'.binaryByChar? c = voc.binaryByChar? c := by
    refine h.find?_binary_eq fun binary hop ↦ decide_eq_false ?_
    subst hop
    exact hc
  have hunary : voc'.unaryByChar? c = voc.unaryByChar? c := by
    refine h.find?_unary_eq fun unary hop ↦ decide_eq_false ?_
    subst hop
    exact hc
  rw [sign?, sign?, hbinary, hunary]

/-- Another word names the same operator as before, and so does every word if the new symbol is a
single character. -/
theorem named?_eq (h : voc'.Extends voc op) {word : String}
    (hword : (single? op.symbol).isSome = true ∨ op.symbol ≠ word) :
    voc'.named? word = voc.named? word := by
  have hother {symbol : String} (hsymbol : op.symbol = symbol) :
      (!(single? symbol).isSome && decide (symbol = word)) = false := by
    subst hsymbol
    rcases hword with hword | hword <;> simp [hword]
  have hbinary : voc'.binaryByName? word = voc.binaryByName? word := by
    refine h.find?_binary_eq fun binary hop ↦ hother ?_
    subst hop
    rfl
  have hunary : voc'.unaryByName? word = voc.unaryByName? word := by
    refine h.find?_unary_eq fun unary hop ↦ hother ?_
    subst hop
    rfl
  rw [named?, named?, hbinary, hunary]

/-- The first operator that has a role still is the first one. -/
theorem holder?_eq (h : voc'.Extends voc op) {role : Role}
    (hrole : role = .addition ∨ role = .multiplication) :
    voc'.holder? role = voc.holder? role := by
  have hsome := Definitions.isSome_holder? voc.sound hrole
  rw [show voc'.toDefinitions = _ from h]
  cases op with
  | between op => exact List.find?_append.trans (Option.or_of_isSome hsome)
  | beside op => rfl

/-- A line without the new symbol gets the same answers as before. -/
theorem agreeOn (h : voc'.Extends voc op) (habsent : ¬voc.HasSymbol line op.symbol) :
    AgreeOn line voc' voc := by
  rw [HasSymbol] at habsent
  refine ⟨fun c hc ↦ h.sign?_eq fun hsingle ↦ ?_, fun token htoken word hkind ↦ h.named?_eq ?_,
    ?_, ?_⟩
  · rw [hsingle] at habsent
    exact habsent hc
  · cases hsingle : single? op.symbol with
    | some c => exact .inl rfl
    | none =>
      rw [hsingle] at habsent
      exact .inr fun heq ↦ habsent ⟨token, htoken, heq ▸ hkind⟩
  · simp only [addition, h.holder?_eq (.inl rfl)]
  · simp only [multiplication, h.holder?_eq (.inr rfl)]

end Vocabulary.Extends

namespace Vocabulary

/-- An operator that is added to the definitions changes neither the expression nor the value, nor
the fault, of a line that does not have its symbol. -/
theorem parse_add_and_calculate_add {defs : Definitions} {op : Operator} {voc voc' : Vocabulary}
    (hbuild : defs.build = .ok voc) (hadd : (defs.add op).build = .ok voc') (scope : Scope)
    {line : Line} (habsent : ¬voc.HasSymbol line op.symbol) :
    voc'.parse scope line = voc.parse scope line ∧
      voc'.calculate scope line = voc.calculate scope line := by
  rw [Definitions.build_eq_ok_iff] at hbuild hadd
  have hextends : voc'.Extends voc op := by rw [Extends, hadd, hbuild]
  exact (hextends.agreeOn habsent).parse_eq_and_calculate_eq scope

/-- A new word whose letters are on the line, but not as a word, changes nothing. -/
theorem parse_add_and_calculate_add_part_of_word :
    let first : BinaryOperator := ⟨"mo", 1, .rightToLeft, .plain, Rule.total₂ fun a _ ↦ a⟩
    ∃ voc', Definitions.standard.build = .ok standard ∧
      (Definitions.standard.add (.between first)).build = .ok voc' ∧
      ¬standard.HasSymbol "7 mod 4".toList "mo" ∧
      voc'.parse .bare "7 mod 4".toList = standard.parse .bare "7 mod 4".toList ∧
      voc'.calculate .bare "7 mod 4".toList = standard.calculate .bare "7 mod 4".toList := by
  intro first
  have hsound : (Definitions.standard.add (.between first)).fault? = none := by decide +kernel
  have hbuild : Definitions.standard.build = .ok standard := Definitions.build_eq_ok_iff.mpr rfl
  have hadd : (Definitions.standard.add (.between first)).build = .ok ⟨_, hsound⟩ :=
    Definitions.build_eq_ok_iff.mpr rfl
  have htokens : Token.ofLine standard "7 mod 4".toList =
      [⟨.number ['7'], ⟨0, 1⟩⟩, ⟨.word "mod", ⟨2, 5⟩⟩, ⟨.number ['4'], ⟨6, 7⟩⟩] := by rfl
  have hsingle : single? "mo" = none := by decide
  have habsent : ¬standard.HasSymbol "7 mod 4".toList "mo" := by
    rw [HasSymbol, hsingle, htokens]
    simp
  exact ⟨_, hbuild, hadd, habsent, parse_add_and_calculate_add hbuild hadd .bare habsent⟩

end Vocabulary

end Reckoner
