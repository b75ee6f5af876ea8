import Mathlib.Data.List.Nodup
import Mathlib.Data.List.Pairwise
import Reckoner.Proofs.Token.CharUse

/-!
# Operators of a vocabulary

Whatever is looked up in a vocabulary, by a character, by a word or for joining two values, is an
operator of it. The other way round an operator is found by its symbol, since no two operators with
as many operands have the same one; where one with two operands and one with one operand may share a
symbol, a character is the former and a word the latter.
-/

namespace Reckoner

/-- The operator is one of a vocabulary. -/
def Operator.IsOf (voc : Vocabulary) : Operator → Prop
  | .between op => op ∈ voc.binary
  | .beside op => op ∈ voc.unary

namespace Vocabulary

/-- The operator that a symbol is read as: by its character, or as a word. -/
def resolve? (voc : Vocabulary) (symbol : String) : Option Operator :=
  match single? symbol with
  | some c => voc.sign? c
  | none => voc.named? symbol

variable {voc : Vocabulary} {op : Operator}

/-- A character that is an operator is one of the vocabulary. -/
theorem isOf_of_sign? {c : Char} (h : voc.sign? c = some op) : op.IsOf voc := by
  rw [sign?, Option.orElse_eq_orElse, Option.orElse_eq_or, Option.or_eq_some_iff] at h
  rcases h with h | ⟨-, h⟩
  · obtain ⟨binary, hfound, rfl⟩ := Option.map_eq_some_iff.mp h
    exact List.mem_of_find?_eq_some hfound
  · obtain ⟨unary, hfound, rfl⟩ := Option.map_eq_some_iff.mp h
    exact List.mem_of_find?_eq_some hfound

/-- A word that is an operator is one of the vocabulary. -/
theorem isOf_of_named? {word : String} (h : voc.named? word = some op) : op.IsOf voc := by
  rw [named?, Option.orElse_eq_orElse, Option.orElse_eq_or, Option.or_eq_some_iff] at h
  rcases h with h | ⟨-, h⟩
  · obtain ⟨unary, hfound, rfl⟩ := Option.map_eq_some_iff.mp h
    exact List.mem_of_find?_eq_some hfound
  · obtain ⟨binary, hfound, rfl⟩ := Option.map_eq_some_iff.mp h
    exact List.mem_of_find?_eq_some hfound

/-- An operator with one operand that is a word is not one character. -/
theorem isInstant_of_named? {word : String} {unary : UnaryOperator}
    (h : voc.named? word = some (.beside unary)) : unary.isInstant = false := by
  rw [named?, Option.orElse_eq_orElse, Option.orElse_eq_or, Option.or_eq_some_iff] at h
  rcases h with h | ⟨-, h⟩
  · obtain ⟨found, hfound, ⟨⟩⟩ := Option.map_eq_some_iff.mp h
    have hword := List.find?_some hfound
    simp only [Bool.and_eq_true, Bool.not_eq_true'] at hword
    exact hword.1
  · obtain ⟨binary, -, heq⟩ := Option.map_eq_some_iff.mp h
    cases heq

/-- A word that is an operator is a symbol. -/
theorem mem_symbols_of_named? {word : String} (h : voc.named? word = some op) :
    word ∈ voc.symbols := by
  rw [named?, Option.orElse_eq_orElse, Option.orElse_eq_or, Option.or_eq_some_iff] at h
  rcases h with h | ⟨-, h⟩
  · obtain ⟨unary, hfound, -⟩ := Option.map_eq_some_iff.mp h
    have hword := List.find?_some hfound
    simp only [Bool.and_eq_true, decide_eq_true_eq] at hword
    rw [← hword.2]
    exact List.mem_append_right _ (List.mem_map_of_mem (List.mem_of_find?_eq_some hfound))
  · obtain ⟨binary, hfound, -⟩ := Option.map_eq_some_iff.mp h
    have hword := List.find?_some hfound
    simp only [Bool.and_eq_true, decide_eq_true_eq] at hword
    rw [← hword.2]
    exact List.mem_append_left _ (List.mem_map_of_mem (List.mem_of_find?_eq_some hfound))

/-- The operator that joins a value and a negation is one of the vocabulary. -/
theorem addition_mem (voc : Vocabulary) : voc.addition ∈ voc.binary :=
  List.mem_of_find?_eq_some (Option.some_get _).symm

/-- The operator that joins two values is one of the vocabulary. -/
theorem multiplication_mem (voc : Vocabulary) : voc.multiplication ∈ voc.binary :=
  List.mem_of_find?_eq_some (Option.some_get _).symm

/-- What joins a value and an operator before the next one is an operator of the vocabulary. -/
theorem connectorFor_mem (voc : Vocabulary) (op : UnaryOperator) :
    voc.connectorFor op ∈ voc.binary := by
  rw [connectorFor]
  split
  · exact voc.addition_mem
  · exact voc.multiplication_mem

end Vocabulary

/-! ## Symbols are unique -/

/-- Where each entry passes only if it is apart from all that were seen before it, entries pass
exactly if any two of them are apart and each is apart from what was seen. -/
theorem passes_iff_pairwise {α : Type} {Apart : α → α → Prop} (passes : List α → List α → Prop)
    (hnil : ∀ seen, passes seen [])
    (hcons : ∀ seen a rest,
      passes seen (a :: rest) ↔ (∀ b ∈ seen, Apart b a) ∧ passes (a :: seen) rest)
    (entries seen : List α) :
    passes seen entries ↔ entries.Pairwise Apart ∧ ∀ a ∈ entries, ∀ b ∈ seen, Apart b a := by
  induction entries generalizing seen with
  | nil => simp [hnil]
  | cons a entries ih =>
    rw [hcons, ih, List.pairwise_cons]
    constructor
    · rintro ⟨hseen, hpairwise, hothers⟩
      refine ⟨⟨fun a' ha' ↦ hothers a' ha' a List.mem_cons_self, hpairwise⟩, ?_⟩
      intro a' ha' b hb
      rcases List.mem_cons.mp ha' with rfl | ha'
      · exact hseen b hb
      · exact hothers a' ha' b (List.mem_cons_of_mem a hb)
    · rintro ⟨⟨hfirst, hpairwise⟩, hothers⟩
      refine ⟨fun b hb ↦ hothers a List.mem_cons_self b hb, hpairwise, ?_⟩
      intro a' ha' b hb
      rcases List.mem_cons.mp hb with rfl | hb
      · exact hfirst a' ha'
      · exact hothers a' (List.mem_cons_of_mem a ha') b hb

namespace Definitions

/-- Two operators with two operands take neither a role of joining nor a symbol from each other. -/
def Apart (b a : BinaryOperator) : Prop :=
  (a.role ≠ .plain → b.role ≠ a.role) ∧ b.symbol ≠ a.symbol

instance : Std.Symm Apart where
  symm _ _ h := ⟨fun hjoins heq ↦ h.1 (heq ▸ hjoins) heq.symm, h.2.symm⟩

/-- Operators with two operands pass exactly if any two of them are apart. -/
theorem binaryFault?_eq_none_iff {ops : List BinaryOperator} :
    binaryFault? [] ops = none ↔ ops.Pairwise Apart := by
  have hcons (seen : List BinaryOperator) (a : BinaryOperator) (rest : List BinaryOperator) :
      binaryFault? seen (a :: rest) = none ↔
        (∀ b ∈ seen, Apart b a) ∧ binaryFault? (a :: seen) rest = none := by
    simp only [binaryFault?, Apart]
    split
    · rename_i hrole
      simp only [List.any_eq_true, decide_eq_true_eq] at hrole
      obtain ⟨hjoins, b, hb, heq⟩ := hrole
      exact iff_of_false (nomatch ·) fun h ↦ (h.1 b hb).1 hjoins heq
    · rename_i hrole
      simp only [List.any_eq_true, decide_eq_true_eq, not_and, not_exists] at hrole
      split
      · rename_i hsymbol
        simp only [List.any_eq_true, decide_eq_true_eq] at hsymbol
        obtain ⟨b, hb, heq⟩ := hsymbol
        exact iff_of_false (nomatch ·) fun h ↦ (h.1 b hb).2 heq
      · rename_i hsymbol
        simp only [List.any_eq_true, decide_eq_true_eq, not_exists, not_and] at hsymbol
        exact (and_iff_right fun b hb ↦ ⟨fun hjoins ↦ hrole hjoins b hb, hsymbol b hb⟩).symm
  have h := passes_iff_pairwise (fun seen rest ↦ binaryFault? seen rest = none) (fun _ ↦ rfl)
    hcons ops []
  simpa using h

/-- Operators with one operand pass exactly if any two of them have different symbols. -/
theorem unaryFault?_eq_none_iff {ops : List UnaryOperator} :
    unaryFault? [] ops = none ↔ ops.Pairwise (·.symbol ≠ ·.symbol) := by
  have hcons (seen : List UnaryOperator) (a : UnaryOperator) (rest : List UnaryOperator) :
      unaryFault? seen (a :: rest) = none ↔
        (∀ b ∈ seen, b.symbol ≠ a.symbol) ∧ unaryFault? (a :: seen) rest = none := by
    simp only [unaryFault?]
    split
    · rename_i hsymbol
      simp only [List.any_eq_true, decide_eq_true_eq] at hsymbol
      obtain ⟨b, hb, heq⟩ := hsymbol
      exact iff_of_false (nomatch ·) fun h ↦ h.1 b hb heq
    · rename_i hsymbol
      simp only [List.any_eq_true, decide_eq_true_eq, not_exists, not_and] at hsymbol
      exact (and_iff_right hsymbol).symm
  have h := passes_iff_pairwise (fun seen rest ↦ unaryFault? seen rest = none) (fun _ ↦ rfl)
    hcons ops []
  simpa using h

/-- What is built from definitions is made of them. -/
theorem build_eq_ok_iff {defs : Definitions} {voc : Vocabulary} :
    defs.build = .ok voc ↔ voc.toDefinitions = defs := by
  constructor
  · intro h
    rw [build] at h
    split at h <;> cases h
    rfl
  · rintro rfl
    rw [build]
    split
    · rfl
    · rename_i fault hfault
      rw [voc.sound] at hfault
      cases hfault

/-- Definitions have no fault exactly if none of the four checks finds one. -/
theorem fault?_eq_none_iff {defs : Definitions} :
    defs.fault? = none ↔ defs.symbolFault? = none ∧ defs.binary.Pairwise Apart ∧
      defs.unary.Pairwise (·.symbol ≠ ·.symbol) ∧ defs.connectorFault? = none := by
  rw [fault?, ← binaryFault?_eq_none_iff, ← unaryFault?_eq_none_iff]
  simp only [Option.orElse_eq_orElse, Option.orElse_eq_or, Option.or_eq_none_iff]

end Definitions

/-- Where no two entries of a list have a property, the one that has it is found. -/
theorem find?_eq_some_iff_of_unique {α : Type} {p : α → Bool} {l : List α} {a : α}
    (hunique : ∀ b ∈ l, ∀ b' ∈ l, p b = true → p b' = true → b = b') :
    l.find? p = some a ↔ a ∈ l ∧ p a = true := by
  constructor
  · exact fun h ↦ ⟨List.mem_of_find?_eq_some h, List.find?_some h⟩
  · rintro ⟨ha, hp⟩
    cases hfound : l.find? p with
    | none => exact absurd hp (List.find?_eq_none.mp hfound a ha)
    | some b =>
      rw [hunique b (List.mem_of_find?_eq_some hfound) a ha (List.find?_some hfound) hp]

/-- Symbols of one character are the same if the character is. -/
theorem eq_of_single? {symbol symbol' : String} {c : Char} (h : single? symbol = some c)
    (h' : single? symbol' = some c) : symbol = symbol' := by
  rw [← String.toList_inj, toList_eq_of_single? h, toList_eq_of_single? h']

namespace Vocabulary

variable {voc : Vocabulary}

/-- Of two different operators with two operands neither has the symbol of the other, nor its role
of joining. -/
theorem apart_of_ne {op op' : BinaryOperator} (hop : op ∈ voc.binary) (hop' : op' ∈ voc.binary)
    (hne : op ≠ op') : Definitions.Apart op op' :=
  (Definitions.fault?_eq_none_iff.mp voc.sound).2.1.forall hop hop' hne

/-- No two operators with two operands have the same symbol. -/
theorem binary_eq_of_symbol_eq {op op' : BinaryOperator} (hop : op ∈ voc.binary)
    (hop' : op' ∈ voc.binary) (h : op.symbol = op'.symbol) : op = op' := by
  by_contra hne
  exact (apart_of_ne hop hop' hne).2 h

/-- No two operators with two operands have the same role of joining. -/
theorem binary_eq_of_role_eq {op op' : BinaryOperator} (hop : op ∈ voc.binary)
    (hop' : op' ∈ voc.binary) (hjoins : op'.role ≠ .plain) (h : op.role = op'.role) :
    op = op' := by
  by_contra hne
  exact (apart_of_ne hop hop' hne).1 hjoins h

/-- No two operators with one operand have the same symbol. -/
theorem unary_eq_of_symbol_eq {op op' : UnaryOperator} (hop : op ∈ voc.unary)
    (hop' : op' ∈ voc.unary) (h : op.symbol = op'.symbol) : op = op' := by
  have : Std.Symm fun a b : UnaryOperator ↦ a.symbol ≠ b.symbol := ⟨fun _ _ ↦ Ne.symm⟩
  by_contra hne
  exact (Definitions.fault?_eq_none_iff.mp voc.sound).2.2.1.forall hop hop' hne h

/-! ## Operators are found -/

section

variable {op : BinaryOperator} {c : Char} {word : String}

theorem binaryByChar?_eq_some_iff :
    voc.binaryByChar? c = some op ↔ op ∈ voc.binary ∧ single? op.symbol = some c := by
  rw [binaryByChar?, find?_eq_some_iff_of_unique, decide_eq_true_eq]
  intro b hb b' hb' h h'
  exact binary_eq_of_symbol_eq hb hb' (eq_of_single? (of_decide_eq_true h) (of_decide_eq_true h'))

theorem binaryByName?_eq_some_iff :
    voc.binaryByName? word = some op ↔
      op ∈ voc.binary ∧ op.isInstant = false ∧ op.symbol = word := by
  rw [binaryByName?, find?_eq_some_iff_of_unique]
  · simp
  · simp only [Bool.and_eq_true, decide_eq_true_eq]
    intro b hb b' hb' h h'
    exact binary_eq_of_symbol_eq hb hb' (h.2.trans h'.2.symm)

/-- An operator has a role of joining exactly if it is found by it. -/
theorem holder?_eq_some_iff {role : Role} (hjoins : role ≠ .plain) :
    voc.holder? role = some op ↔ op ∈ voc.binary ∧ op.role = role := by
  rw [Definitions.holder?, find?_eq_some_iff_of_unique, decide_eq_true_eq]
  simp only [decide_eq_true_eq]
  rintro b hb b' hb' h rfl
  exact binary_eq_of_role_eq hb hb' hjoins h

theorem sign?_of_binary (hop : op ∈ voc.binary) (hc : single? op.symbol = some c) :
    voc.sign? c = some (.between op) := by
  rw [sign?, binaryByChar?_eq_some_iff.mpr ⟨hop, hc⟩]
  rfl

theorem named?_of_binary (hop : op ∈ voc.binary) (hnamed : op.isInstant = false)
    (hother : ∀ op' ∈ voc.unary, op'.symbol ≠ op.symbol) :
    voc.named? op.symbol = some (.between op) := by
  have hnone : voc.unaryByName? op.symbol = none := by
    refine List.find?_eq_none.mpr fun op' hop' h ↦ ?_
    simp only [Bool.and_eq_true, decide_eq_true_eq] at h
    exact hother op' hop' h.2
  rw [named?, hnone, binaryByName?_eq_some_iff.mpr ⟨hop, hnamed, rfl⟩]
  rfl

end

section

variable {op : UnaryOperator} {c : Char} {word : String}

theorem unaryByChar?_eq_some_iff :
    voc.unaryByChar? c = some op ↔ op ∈ voc.unary ∧ single? op.symbol = some c := by
  rw [unaryByChar?, find?_eq_some_iff_of_unique, decide_eq_true_eq]
  intro b hb b' hb' h h'
  exact unary_eq_of_symbol_eq hb hb' (eq_of_single? (of_decide_eq_true h) (of_decide_eq_true h'))

theorem unaryByName?_eq_some_iff :
    voc.unaryByName? word = some op ↔
      op ∈ voc.unary ∧ op.isInstant = false ∧ op.symbol = word := by
  rw [unaryByName?, find?_eq_some_iff_of_unique]
  · simp
  · simp only [Bool.and_eq_true, decide_eq_true_eq]
    intro b hb b' hb' h h'
    exact unary_eq_of_symbol_eq hb hb' (h.2.trans h'.2.symm)

theorem sign?_of_unary (hop : op ∈ voc.unary) (hc : single? op.symbol = some c)
    (hother : ∀ op' ∈ voc.binary, op'.symbol ≠ op.symbol) : voc.sign? c = some (.beside op) := by
  have hnone : voc.binaryByChar? c = none := by
    refine List.find?_eq_none.mpr fun op' hop' h ↦ ?_
    exact hother op' hop' (eq_of_single? (of_decide_eq_true h) hc)
  rw [sign?, hnone, unaryByChar?_eq_some_iff.mpr ⟨hop, hc⟩]
  rfl

theorem named?_of_unary (hop : op ∈ voc.unary) (hnamed : op.isInstant = false) :
    voc.named? op.symbol = some (.beside op) := by
  rw [named?, unaryByName?_eq_some_iff.mpr ⟨hop, hnamed, rfl⟩]
  rfl

end

end Vocabulary

end Reckoner
