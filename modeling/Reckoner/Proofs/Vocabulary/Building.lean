import Reckoner.Proofs.Vocabulary.Congruence
import Reckoner.Proofs.Vocabulary.Lookup
import Reckoner.Vocabulary.Standard

/-!
# When definitions make a vocabulary

Definitions are checked one after the other, each against those that were given before it, and the
first fault is reported. Whether there is one has nothing to do with that order: there is none
exactly if every symbol can be recognised, no two operators with as many operands share one, and
each role of joining has one holder.

A vocabulary is looked up by its definitions alone, each of which is found by its own symbol or role
and by nothing else. Hence the same definitions in another order make a vocabulary that gives the
same answers, and with them reads every line in the same way.
-/

namespace Reckoner

/-! ## Symbols -/

theorem single?_eq_some_iff {symbol : String} {c : Char} :
    single? symbol = some c ↔ symbol = String.singleton c := by
  constructor
  · intro h
    rw [← String.toList_inj, toList_eq_of_single? h, String.toList_singleton]
  · rintro rfl
    rw [single?, String.toList_singleton]

/-- A symbol that is not empty is one character or a word of two or more. -/
theorem isSome_single?_eq_false_iff {symbol : String} (h : symbol ≠ "") :
    (single? symbol).isSome = false ↔ 2 ≤ symbol.length := by
  have hne : symbol.toList ≠ [] := fun hnil ↦ h (String.toList_eq_nil_iff.mp hnil)
  rw [single?, ← String.length_toList]
  match symbol.toList, hne with
  | [c], _ => simp
  | c :: d :: rest, _ => simp

namespace Definitions

variable {defs defs' : Definitions}

theorem mem_instantChars_iff {c : Char} :
    c ∈ defs.instantChars ↔ String.singleton c ∈ defs.symbols := by
  simp only [instantChars, List.mem_filterMap, single?_eq_some_iff, exists_eq_right]

/-- A symbol can be recognised exactly if it is not empty, has no reserved character, and is not a
word that one of its characters would cut. -/
theorem isRecognisable_iff {symbol : String} :
    defs.isRecognisable symbol = true ↔
      symbol ≠ "" ∧ (∀ c ∈ symbol.toList, isReservedChar c = false) ∧
        (2 ≤ symbol.length → ∀ c ∈ symbol.toList, String.singleton c ∉ defs.symbols) := by
  rw [isRecognisable, Bool.and_eq_true, Bool.and_eq_true, and_assoc, Bool.not_eq_true',
    ← Bool.not_eq_true, String.isEmpty_iff]
  refine and_congr_right fun hne ↦ and_congr ?_ ?_
  · simp
  · rw [← isSome_single?_eq_false_iff hne, Bool.or_eq_true]
    simp only [Bool.not_eq_true', List.any_eq_false, List.contains_iff_mem, mem_instantChars_iff]
    cases (single? symbol).isSome <;> simp

/-- No symbol is at fault exactly if all can be recognised. -/
theorem symbolFault?_eq_none_iff :
    defs.symbolFault? = none ↔ ∀ symbol ∈ defs.symbols, defs.isRecognisable symbol = true := by
  simp [symbolFault?, List.find?_eq_none]

/-! ## Roles -/

/-- Operators do not take roles of joining from each other exactly if each of these has one holder
at most. -/
theorem pairwise_role_iff {ops : List BinaryOperator} :
    (ops.Pairwise fun b a ↦ a.role ≠ .plain → b.role ≠ a.role) ↔
      ∀ role, role ≠ .plain → ops.countP (·.role = role) ≤ 1 := by
  induction ops with
  | nil => simp
  | cons op ops ih =>
    rw [List.pairwise_cons, ih]
    constructor
    · rintro ⟨hfirst, hrest⟩ role hjoins
      by_cases hrole : op.role = role
      · subst hrole
        have hnone : ops.countP (·.role = op.role) = 0 := by
          rw [List.countP_eq_zero]
          intro a ha heq
          obtain heq : a.role = op.role := of_decide_eq_true heq
          exact hfirst a ha (heq ▸ hjoins) heq.symm
        rw [List.countP_cons, hnone]
        split <;> decide
      · rw [List.countP_cons_of_neg (by simpa using hrole)]
        exact hrest role hjoins
    · intro h
      refine ⟨fun a ha hjoins heq ↦ ?_, fun role hjoins ↦ ?_⟩
      · have hpos : 0 < ops.countP (·.role = a.role) :=
          List.countP_pos_iff.mpr ⟨a, ha, decide_eq_true rfl⟩
        have hle := h a.role hjoins
        rw [List.countP_cons, if_pos (decide_eq_true heq)] at hle
        omega
      · exact Nat.le_trans (List.Sublist.countP_le (List.sublist_cons_self op ops)) (h role hjoins)

/-- Any two operators are apart exactly if no symbol occurs twice and no role of joining does. -/
theorem pairwise_apart_iff {ops : List BinaryOperator} :
    ops.Pairwise Apart ↔ (∀ role, role ≠ .plain → ops.countP (·.role = role) ≤ 1) ∧
      (ops.map BinaryOperator.symbol).Nodup := by
  rw [← pairwise_role_iff, List.Nodup, List.pairwise_map, ← List.pairwise_and_iff]
  rfl

/-- No role of joining is left out exactly if each has a holder. -/
theorem connectorFault?_eq_none_iff :
    defs.connectorFault? = none ↔
      ∀ role, role ≠ .plain → 0 < defs.binary.countP (·.role = role) := by
  simp only [connectorFault?, holder?, Option.map_eq_none_iff, List.find?_eq_none,
    Option.isNone_iff_eq_none, List.countP_pos_iff, decide_eq_true_eq]
  constructor
  · intro h role hjoins
    have hmem : role ∈ [Role.addition, Role.multiplication] := by
      cases role with
      | plain => exact absurd rfl hjoins
      | addition => exact List.mem_cons_self
      | multiplication => exact List.mem_cons_of_mem _ List.mem_cons_self
    simpa using h role hmem
  · intro h role hmem
    have hjoins : role ≠ .plain := by
      rintro rfl
      simp at hmem
    simpa using h role hjoins

/-! ## Sound definitions -/

/-- What definitions must be like to make a vocabulary. -/
structure IsSound (defs : Definitions) : Prop where
  ne_empty : ∀ symbol ∈ defs.symbols, symbol ≠ ""
  /-- No character of a symbol is white space, a digit, a bracket, a point or a comma. -/
  not_reserved : ∀ symbol ∈ defs.symbols, ∀ c ∈ symbol.toList,
    isBlank c = false ∧ c.isDigit = false ∧ c ≠ '(' ∧ c ≠ ')' ∧ c ≠ '.' ∧ c ≠ ','
  /-- No character of a word is itself a symbol. -/
  not_cut : ∀ symbol ∈ defs.symbols, 2 ≤ symbol.length →
    ∀ c ∈ symbol.toList, String.singleton c ∉ defs.symbols
  nodup_binary : (defs.binary.map BinaryOperator.symbol).Nodup
  nodup_unary : (defs.unary.map UnaryOperator.symbol).Nodup
  one_addition : defs.binary.countP (·.role = .addition) = 1
  one_multiplication : defs.binary.countP (·.role = .multiplication) = 1

/-- Definitions have no fault exactly if they are sound. -/
theorem fault?_eq_none_iff_isSound : defs.fault? = none ↔ defs.IsSound := by
  rw [fault?_eq_none_iff, symbolFault?_eq_none_iff, pairwise_apart_iff,
    connectorFault?_eq_none_iff]
  simp only [isRecognisable_iff, isReservedChar_eq_false_iff]
  constructor
  · rintro ⟨hsymbols, ⟨hatMost, hbinary⟩, hunary, hatLeast⟩
    have hone {role : Role} (hjoins : role ≠ .plain) : defs.binary.countP (·.role = role) = 1 :=
      Nat.le_antisymm (hatMost role hjoins) (hatLeast role hjoins)
    exact {
      ne_empty := fun symbol h ↦ (hsymbols symbol h).1
      not_reserved := fun symbol h ↦ (hsymbols symbol h).2.1
      not_cut := fun symbol h ↦ (hsymbols symbol h).2.2
      nodup_binary := hbinary
      nodup_unary := List.pairwise_map.mpr hunary
      one_addition := hone (by decide)
      one_multiplication := hone (by decide) }
  · intro h
    have hone {role : Role} (hjoins : role ≠ .plain) : defs.binary.countP (·.role = role) = 1 := by
      cases role with
      | addition => exact h.one_addition
      | multiplication => exact h.one_multiplication
      | plain => exact absurd rfl hjoins
    exact ⟨fun symbol hsymbol ↦ ⟨h.ne_empty symbol hsymbol, h.not_reserved symbol hsymbol,
        h.not_cut symbol hsymbol⟩,
      ⟨fun _ hjoins ↦ Nat.le_of_eq (hone hjoins), h.nodup_binary⟩,
      List.pairwise_map.mp h.nodup_unary, fun _ hjoins ↦ by rw [hone hjoins]; decide⟩

/-- Definitions make a vocabulary exactly if they are sound. -/
theorem exists_build_iff_isSound : (∃ voc, defs.build = .ok voc) ↔ defs.IsSound := by
  rw [← fault?_eq_none_iff_isSound]
  constructor
  · rintro ⟨voc, hbuild⟩
    exact build_eq_ok_iff.mp hbuild ▸ voc.sound
  · exact fun h ↦ ⟨⟨defs, h⟩, build_eq_ok_iff.mpr rfl⟩

/-- The same definitions in another order. -/
structure Reorders (defs' defs : Definitions) : Prop where
  binary : defs'.binary.Perm defs.binary
  unary : defs'.unary.Perm defs.unary
  keywords : defs'.keywords.Perm defs.keywords

/-- Sound definitions are sound in any order. -/
theorem IsSound.of_reorders (h : defs.IsSound) (horder : defs'.Reorders defs) :
    defs'.IsSound := by
  have hsymbols : defs'.symbols.Perm defs.symbols :=
    (horder.binary.map _).append (horder.unary.map _)
  exact {
    ne_empty := fun symbol hs ↦ h.ne_empty symbol (hsymbols.mem_iff.mp hs)
    not_reserved := fun symbol hs ↦ h.not_reserved symbol (hsymbols.mem_iff.mp hs)
    not_cut := fun symbol hs hword c hc hinstant ↦
      h.not_cut symbol (hsymbols.mem_iff.mp hs) hword c hc (hsymbols.mem_iff.mp hinstant)
    nodup_binary := (horder.binary.map _).nodup_iff.mpr h.nodup_binary
    nodup_unary := (horder.unary.map _).nodup_iff.mpr h.nodup_unary
    one_addition := (horder.binary.countP_eq _).trans h.one_addition
    one_multiplication := (horder.binary.countP_eq _).trans h.one_multiplication }

end Definitions

namespace Vocabulary

variable {voc voc' : Vocabulary} {defs defs' : Definitions}

/-! ## Answers -/

/-- A vocabulary answers what definitions say: a character or a word is the operator whose symbol
it is, and nothing else, and the operators that join neighbours are the two that have these
roles. -/
structure Answers (voc : Vocabulary) (defs : Definitions) : Prop where
  binaryByChar?_eq_some_iff : ∀ c op, voc.binaryByChar? c = some op ↔
    op ∈ defs.binary ∧ op.symbol = String.singleton c
  unaryByChar?_eq_some_iff : ∀ c op, voc.unaryByChar? c = some op ↔
    op ∈ defs.unary ∧ op.symbol = String.singleton c
  binaryByName?_eq_some_iff : ∀ word op, voc.binaryByName? word = some op ↔
    op ∈ defs.binary ∧ op.symbol = word ∧ 2 ≤ word.length
  unaryByName?_eq_some_iff : ∀ word op, voc.unaryByName? word = some op ↔
    op ∈ defs.unary ∧ op.symbol = word ∧ 2 ≤ word.length
  eq_addition_iff : ∀ op, op = voc.addition ↔ op ∈ defs.binary ∧ op.role = .addition
  eq_multiplication_iff : ∀ op,
    op = voc.multiplication ↔ op ∈ defs.binary ∧ op.role = .multiplication

/-- A vocabulary answers what the definitions say of which it is made. -/
theorem answers (voc : Vocabulary) : voc.Answers voc.toDefinitions := by
  have hsound := Definitions.fault?_eq_none_iff_isSound.mp voc.sound
  refine ⟨?_, ?_, ?_, ?_, ?_, ?_⟩
  · intro c op
    rw [binaryByChar?_eq_some_iff, single?_eq_some_iff]
  · intro c op
    rw [unaryByChar?_eq_some_iff, single?_eq_some_iff]
  · intro word op
    rw [binaryByName?_eq_some_iff]
    refine and_congr_right fun hop ↦ ?_
    have hmem : op.symbol ∈ voc.symbols := List.mem_append_left _ (List.mem_map_of_mem hop)
    rw [BinaryOperator.isInstant, isSome_single?_eq_false_iff (hsound.ne_empty _ hmem), and_comm]
    exact and_congr_right fun heq ↦ by rw [heq]
  · intro word op
    rw [unaryByName?_eq_some_iff]
    refine and_congr_right fun hop ↦ ?_
    have hmem : op.symbol ∈ voc.symbols := List.mem_append_right _ (List.mem_map_of_mem hop)
    rw [UnaryOperator.isInstant, isSome_single?_eq_false_iff (hsound.ne_empty _ hmem), and_comm]
    exact and_congr_right fun heq ↦ by rw [heq]
  · intro op
    have hholder : voc.holder? .addition = some voc.addition := (Option.some_get _).symm
    rw [← holder?_eq_some_iff (by decide), hholder, Option.some.injEq, eq_comm]
  · intro op
    have hholder : voc.holder? .multiplication = some voc.multiplication :=
      (Option.some_get _).symm
    rw [← holder?_eq_some_iff (by decide), hholder, Option.some.injEq, eq_comm]

/-- Two vocabularies cannot be told apart: they give the same answers and read the same lines. -/
structure Indistinct (voc' voc : Vocabulary) : Prop where
  binaryByChar?_eq : ∀ c, voc'.binaryByChar? c = voc.binaryByChar? c
  unaryByChar?_eq : ∀ c, voc'.unaryByChar? c = voc.unaryByChar? c
  binaryByName?_eq : ∀ word, voc'.binaryByName? word = voc.binaryByName? word
  unaryByName?_eq : ∀ word, voc'.unaryByName? word = voc.unaryByName? word
  isReserved_eq : ∀ name, voc'.isReserved name = voc.isReserved name
  multiplication_eq : voc'.multiplication = voc.multiplication
  connectorFor_eq : ∀ op, voc'.connectorFor op = voc.connectorFor op
  parse_eq : ∀ scope line, voc'.parse scope line = voc.parse scope line
  calculate_eq : ∀ scope line, voc'.calculate scope line = voc.calculate scope line

/-- Vocabularies made of the same definitions in another order cannot be told apart. -/
theorem indistinct_of_reorders (horder : voc'.Reorders voc.toDefinitions) :
    voc'.Indistinct voc := by
  have h := voc.answers
  have h' := voc'.answers
  have hbinary (op : BinaryOperator) : op ∈ voc'.binary ↔ op ∈ voc.binary :=
    horder.binary.mem_iff
  have hunary (op : UnaryOperator) : op ∈ voc'.unary ↔ op ∈ voc.unary := horder.unary.mem_iff
  have hbinaryByChar (c : Char) : voc'.binaryByChar? c = voc.binaryByChar? c := by
    ext1 op
    rw [h'.binaryByChar?_eq_some_iff, h.binaryByChar?_eq_some_iff, hbinary]
  have hunaryByChar (c : Char) : voc'.unaryByChar? c = voc.unaryByChar? c := by
    ext1 op
    rw [h'.unaryByChar?_eq_some_iff, h.unaryByChar?_eq_some_iff, hunary]
  have hbinaryByName (word : String) : voc'.binaryByName? word = voc.binaryByName? word := by
    ext1 op
    rw [h'.binaryByName?_eq_some_iff, h.binaryByName?_eq_some_iff, hbinary]
  have hunaryByName (word : String) : voc'.unaryByName? word = voc.unaryByName? word := by
    ext1 op
    rw [h'.unaryByName?_eq_some_iff, h.unaryByName?_eq_some_iff, hunary]
  have haddition : voc'.addition = voc.addition := by
    rw [h.eq_addition_iff, ← hbinary]
    exact (h'.eq_addition_iff _).mp rfl
  have hmultiplication : voc'.multiplication = voc.multiplication := by
    rw [h.eq_multiplication_iff, ← hbinary]
    exact (h'.eq_multiplication_iff _).mp rfl
  have hagree (line : Line) : AgreeOn line voc' voc := {
    sign?_eq := fun c _ ↦ by rw [sign?, sign?, hbinaryByChar, hunaryByChar]
    named?_eq := fun _ _ word _ ↦ by rw [named?, named?, hbinaryByName, hunaryByName]
    addition_eq := haddition
    multiplication_eq := hmultiplication }
  exact {
    binaryByChar?_eq := hbinaryByChar
    unaryByChar?_eq := hunaryByChar
    binaryByName?_eq := hbinaryByName
    unaryByName?_eq := hunaryByName
    isReserved_eq := fun name ↦ by
      rw [isReserved, isReserved, hbinaryByName, hunaryByName, horder.keywords.contains_eq]
    multiplication_eq := hmultiplication
    connectorFor_eq := fun op ↦ by rw [connectorFor, connectorFor, haddition, hmultiplication]
    parse_eq := fun scope line ↦ ((hagree line).parse_eq_and_calculate_eq scope).1
    calculate_eq := fun scope line ↦ ((hagree line).parse_eq_and_calculate_eq scope).2 }

end Vocabulary

namespace Definitions

/-- Definitions make a vocabulary exactly if they are sound, and then it answers what they say. In
any other order they make one as well, and the two cannot be told apart. -/
theorem build_iff_isSound (defs : Definitions) :
    ((∃ voc, defs.build = .ok voc) ↔ defs.IsSound) ∧
      ∀ voc, defs.build = .ok voc → voc.Answers defs ∧
        ∀ defs', Reorders defs' defs → ∃ voc', defs'.build = .ok voc' ∧ voc'.Indistinct voc := by
  refine ⟨exists_build_iff_isSound, ?_⟩
  intro voc hbuild
  obtain rfl := build_eq_ok_iff.mp hbuild
  refine ⟨voc.answers, ?_⟩
  intro defs' horder
  have hsound : defs'.IsSound := (exists_build_iff_isSound.mp ⟨voc, hbuild⟩).of_reorders horder
  obtain ⟨voc', hbuild'⟩ := exists_build_iff_isSound.mpr hsound
  obtain rfl := build_eq_ok_iff.mp hbuild'
  exact ⟨voc', hbuild', Vocabulary.indistinct_of_reorders horder⟩

/-- The standard definitions the other way round make a vocabulary that is the standard one to
whoever asks it. -/
theorem build_iff_isSound_reversed :
    let reversed : Definitions :=
      ⟨Standard.binary.reverse, Standard.unary.reverse, Standard.keywords.reverse⟩
    standard.build = .ok .standard ∧ reversed.Reorders standard ∧
      Vocabulary.standard.Answers standard ∧
      ∃ voc', reversed.build = .ok voc' ∧ voc'.Indistinct .standard := by
  intro reversed
  have hbuild : standard.build = .ok .standard := build_eq_ok_iff.mpr rfl
  have horder : reversed.Reorders standard :=
    ⟨List.reverse_perm _, List.reverse_perm _, List.reverse_perm _⟩
  obtain ⟨hanswers, hreorders⟩ := (build_iff_isSound standard).2 .standard hbuild
  exact ⟨hbuild, horder, hanswers, hreorders reversed horder⟩

end Definitions

end Reckoner
