import Reckoner.Proofs.Expr.Phase
import Reckoner.Proofs.Token.CharUse

/-!
# Runs of characters

A number and a word are runs of characters that cannot be made longer. The scanner, which decides
at each character what becomes of the token that is open, finds these runs.
-/

namespace Reckoner

/-! ## Characters of numbers and of words -/

/-- A character that can stand in a number. -/
def isNumberChar (c : Char) : Bool := c.isDigit || c == '.' || c == ','

/-- The form of a character that is an operator, one between two operands before one beside one. -/
def Vocabulary.signTerminal? (voc : Vocabulary) (c : Char) : Option Terminal :=
  match voc.binaryByChar? c, voc.unaryByChar? c with
  | some _, _ => some .between
  | none, some op => some op.side.terminal
  | none, none => none

/-- A character that can stand in a word: it is neither blank nor part of a number, a bracket or an
operator. A comma can, since only a number that has begun takes it. -/
def Vocabulary.isWordChar (voc : Vocabulary) (c : Char) : Bool :=
  !isBlank c && !c.isDigit && c != '.' && c != '(' && c != ')' && (voc.signTerminal? c).isNone

/-- A run of characters cannot be made longer where a line goes on like this. -/
def Stops (belongs : Char → Bool) (line : List Char) : Prop :=
  ∀ c ∈ line.head?, belongs c = false

/-- Each line begins with a run of characters that cannot be made longer, which may be empty. -/
theorem exists_run (belongs : Char → Bool) (line : List Char) :
    ∃ run rest, line = run ++ rest ∧ (∀ c ∈ run, belongs c = true) ∧ Stops belongs rest := by
  refine ⟨line.takeWhile belongs, line.dropWhile belongs, ?_, ?_, ?_⟩
  · exact List.takeWhile_append_dropWhile.symm
  · exact List.all_eq_true.mp List.all_takeWhile
  · intro c hc
    have hnot := List.head?_dropWhile_not belongs line
    rw [Option.mem_def.mp hc] at hnot
    exact hnot

variable {voc : Vocabulary} {c : Char}

/-- The form of a sign is that of its operator. -/
theorem Vocabulary.signTerminal?_eq :
    voc.signTerminal? c = (voc.sign? c).map Operator.terminal := by
  rw [signTerminal?, sign?]
  cases voc.binaryByChar? c with
  | some op => rfl
  | none => cases voc.unaryByChar? c <;> rfl

/-- The characters of numbers are digits, points and commas. -/
theorem isNumberChar_iff : isNumberChar c = true ↔
    CharUse.of voc c = .digit ∨ CharUse.of voc c = .point ∨ CharUse.of voc c = .comma := by
  simp only [isNumberChar, Bool.or_eq_true, beq_iff_eq, or_assoc, CharUse.of_eq_iff]
  constructor
  · rintro (h | h | h)
    · exact .inl (.digit h)
    · exact .inr (.inl (.point h))
    · exact .inr (.inr (.comma h))
  · rintro (h | h | h)
    · cases h with | digit h => exact .inl h
    · cases h with | point h => exact .inr (.inl h)
    · cases h with | comma h => exact .inr (.inr h)

/-- The characters of words are letters and commas. -/
theorem Vocabulary.isWordChar_iff : voc.isWordChar c = true ↔
    CharUse.of voc c = .letter ∨ CharUse.of voc c = .comma := by
  simp only [isWordChar, signTerminal?_eq, Option.isNone_map, Bool.and_eq_true, Bool.not_eq_true',
    bne_iff_ne, Option.isNone_iff_eq_none, CharUse.of_eq_iff]
  constructor
  · rintro ⟨⟨⟨⟨⟨hblank, hdigit⟩, hpoint⟩, hopening⟩, hclosing⟩, hsign⟩
    by_cases hcomma : c = ','
    · exact .inr (.comma hcomma)
    · refine .inl (.letter (isReservedChar_eq_false_iff.mpr ?_) hsign)
      exact ⟨hblank, hdigit, hopening, hclosing, hpoint, hcomma⟩
  · rintro (h | h)
    · cases h with
      | letter hreserved hsign =>
        obtain ⟨hblank, hdigit, hopening, hclosing, hpoint, -⟩ :=
          isReservedChar_eq_false_iff.mp hreserved
        exact ⟨⟨⟨⟨⟨hblank, hdigit⟩, hpoint⟩, hopening⟩, hclosing⟩, hsign⟩
    · cases h with
      | comma h =>
        subst h
        refine ⟨by decide, Option.eq_none_iff_forall_ne_some.mpr fun op hsign ↦ ?_⟩
        exact absurd (not_isReservedChar_of_sign? hsign) (by decide)

/-! ## Runs of characters -/

namespace OpenToken

variable {index start : Nat} {text : List Char}

/-- A blank is no token. -/
theorem step_none_blank (h : isBlank c = true) :
    OpenToken.none.step voc index c = ([], none) := by
  rw [step.eq_def, (CharUse.Is.blank h).of_eq]
  rfl

/-- A bracket is a token. -/
theorem step_none_opening :
    OpenToken.none.step voc index '(' = ([⟨.opening, .single index⟩], none) := by
  rw [step.eq_def, (CharUse.Is.opening rfl).of_eq]
  rfl

theorem step_none_closing :
    OpenToken.none.step voc index ')' = ([⟨.closing, .single index⟩], none) := by
  rw [step.eq_def, (CharUse.Is.closing rfl).of_eq]
  rfl

/-- An operator of one character is a token. -/
theorem step_none_sign {op : Operator} (h : voc.sign? c = some op) :
    OpenToken.none.step voc index c = ([⟨.sign op, .single index⟩], none) := by
  rw [step.eq_def, (CharUse.Is.sign h).of_eq]
  rfl

/-- A digit or a point begins a number. -/
theorem step_none_number (h : (c.isDigit || c == '.') = true) :
    OpenToken.none.step voc index c = ([], .number index [c]) := by
  simp only [Bool.or_eq_true, beq_iff_eq] at h
  rcases h with h | h
  · rw [step.eq_def, (CharUse.Is.digit h).of_eq]
    rfl
  · rw [step.eq_def, (CharUse.Is.point h).of_eq]
    rfl

/-- A letter or a comma begins a word. -/
theorem step_none_word (h : voc.isWordChar c = true) :
    OpenToken.none.step voc index c = ([], .word index [c]) := by
  rcases Vocabulary.isWordChar_iff.mp h with h | h
  · rw [step.eq_def, h]
    rfl
  · rw [step.eq_def, h]

/-- A number goes on, unless it gets a second point. -/
theorem step_number (h : isNumberChar c = true) (hpoint : c = '.' → '.' ∉ text) :
    (number start text).step voc index c = ([], .number start (c :: text)) := by
  rcases isNumberChar_iff.mp h with h | h | h
  · rw [step.eq_def, h]
  · have hnew : text.contains '.' = false := by
      cases CharUse.of_eq_iff.mp h with
      | point h => simpa using hpoint h
    simp only [step.eq_def, h, hnew]
    rfl
  · rw [step.eq_def, h]

/-- A second point in a number stands for itself. -/
theorem step_extraPoint (h : '.' ∈ text) :
    (number start text).step voc index '.' = ([⟨.extraPoint, .single index⟩], none) := by
  have huse : CharUse.of voc '.' = .point := rfl
  rw [step.eq_def, huse]
  exact if_pos (List.contains_iff_mem.mpr h)

/-- A word goes on. -/
theorem step_word (h : voc.isWordChar c = true) :
    (word start text).step voc index c = ([], .word start (c :: text)) := by
  rcases Vocabulary.isWordChar_iff.mp h with h | h <;> rw [step.eq_def, h]

/-- A number ends where a character follows that is none of a number. -/
theorem step_number_of_stops (h : isNumberChar c = false) :
    (number start text).step voc index c =
      (⟨.number text.reverse, ⟨start, index⟩⟩ :: (OpenToken.none.step voc index c).1,
        (OpenToken.none.step voc index c).2) := by
  have huse : ¬(CharUse.of voc c = .digit ∨ CharUse.of voc c = .point ∨
      CharUse.of voc c = .comma) := mt isNumberChar_iff.mpr (Bool.eq_false_iff.mp h)
  rw [step.eq_def, step.eq_def]
  cases hof : CharUse.of voc c with
  | digit => exact absurd (.inl hof) huse
  | point => exact absurd (.inr (.inl hof)) huse
  | comma => exact absurd (.inr (.inr hof)) huse
  | _ => rfl

/-- A word ends where a character follows that is none of a word. -/
theorem step_word_of_stops (h : voc.isWordChar c = false) :
    (word start text).step voc index c =
      (⟨.word (String.ofList text.reverse), ⟨start, index⟩⟩ ::
        (OpenToken.none.step voc index c).1, (OpenToken.none.step voc index c).2) := by
  have huse := mt Vocabulary.isWordChar_iff.mpr (Bool.eq_false_iff.mp h)
  rw [step.eq_def, step.eq_def]
  cases hof : CharUse.of voc c with
  | letter => exact absurd (.inl hof) huse
  | comma => exact absurd (.inr hof) huse
  | _ => rfl

end OpenToken

namespace Token

variable {index start : Nat} {text run rest : List Char}

/-- A character that only changes the open token. -/
theorem scan_cons {current next : OpenToken} (h : current.step voc index c = ([], next)) :
    scan voc index current (c :: rest) = scan voc (index + 1) next rest := by
  rw [scan, h]
  rfl

/-- A character that stands for itself. -/
theorem scan_single {token : Token} (h : OpenToken.none.step voc index c = ([token], .none)) :
    scan voc index .none (c :: rest) = token :: scan voc (index + 1) .none rest := by
  rw [scan, h]
  rfl

/-- A number takes the characters that can stand in it, as long as it has at most one point. -/
theorem scan_number (hrun : ∀ c ∈ run, isNumberChar c = true)
    (hpoints : (text.reverse ++ run).count '.' ≤ 1) (rest : List Char) :
    scan voc index (.number start text) (run ++ rest) =
      scan voc (index + run.length) (.number start (run.reverse ++ text)) rest := by
  induction run generalizing index text with
  | nil => rfl
  | cons c run ih =>
    have hpoint : c = '.' → '.' ∉ text := by
      rintro rfl hmem
      have hpos := List.count_pos_iff.mpr hmem
      simp only [List.count_append, List.count_reverse, List.count_cons_self] at hpoints
      omega
    rw [List.cons_append, scan_cons (OpenToken.step_number (hrun c List.mem_cons_self) hpoint),
      ih fun d hd ↦ hrun d (List.mem_cons_of_mem c hd)]
    · simp [Nat.add_assoc, Nat.add_comm 1]
    · simpa using hpoints

/-- A character that is no second point leaves a number with one point at most. -/
theorem count_point_cons_le (hpoint : ¬(c = '.' ∧ '.' ∈ text)) (htext : text.count '.' ≤ 1) :
    (c :: text).count '.' ≤ 1 := by
  rcases Decidable.not_and_iff_or_not.mp hpoint with hc | hmem
  · rwa [List.count_cons_of_ne hc]
  · have hzero := List.count_eq_zero.mpr hmem
    rw [List.count_cons]
    split <;> omega

/-- A second point in a number is a token of its own, and behind it no token is open. -/
theorem scan_extraPoint (hrun : ∀ c ∈ run, isNumberChar c = true) (htext : text.count '.' ≤ 1)
    (hpoints : 1 < (text.reverse ++ run).count '.') (rest : List Char) :
    ∃ place behind, index ≤ place ∧ scan voc index (.number start text) (run ++ rest) =
      ⟨.extraPoint, .single place⟩ :: scan voc (place + 1) .none behind := by
  induction run generalizing index text with
  | nil =>
    simp only [List.append_nil, List.count_reverse] at hpoints
    omega
  | cons c run ih =>
    by_cases hpoint : c = '.' ∧ '.' ∈ text
    · obtain ⟨rfl, hmem⟩ := hpoint
      refine ⟨index, run ++ rest, Nat.le_refl index, ?_⟩
      rw [List.cons_append, scan, OpenToken.step_extraPoint hmem]
      rfl
    · have hone := count_point_cons_le hpoint htext
      rw [List.cons_append,
        scan_cons (OpenToken.step_number (hrun c List.mem_cons_self) (not_and.mp hpoint))]
      obtain ⟨place, behind, hplace, hscan⟩ :=
        ih (fun d hd ↦ hrun d (List.mem_cons_of_mem c hd)) hone (by simpa using hpoints)
      exact ⟨place, behind, Nat.le_of_succ_le hplace, hscan⟩

/-- A number with a second point leaves a token that no line may have. -/
theorem exists_extraPoint (hrun : ∀ c ∈ run, isNumberChar c = true) (htext : text.count '.' ≤ 1)
    (hpoints : 1 < (text.reverse ++ run).count '.') (rest : List Char) :
    ∃ token ∈ scan voc index (.number start text) (run ++ rest), token.kind = .extraPoint := by
  obtain ⟨place, behind, -, hscan⟩ := scan_extraPoint hrun htext hpoints rest
  rw [hscan]
  exact ⟨_, List.mem_cons_self, rfl⟩

/-- A word takes the characters that can stand in it. -/
theorem scan_word (hrun : ∀ c ∈ run, voc.isWordChar c = true) (rest : List Char) :
    scan voc index (.word start text) (run ++ rest) =
      scan voc (index + run.length) (.word start (run.reverse ++ text)) rest := by
  induction run generalizing index text with
  | nil => rfl
  | cons c run ih =>
    rw [List.cons_append, scan_cons (OpenToken.step_word (hrun c List.mem_cons_self)),
      ih fun d hd ↦ hrun d (List.mem_cons_of_mem c hd)]
    simp [Nat.add_assoc, Nat.add_comm 1]

/-- A number ends where its run of characters ends. -/
theorem scan_number_of_stops (h : Stops isNumberChar rest) :
    scan voc index (.number start text) rest =
      ⟨.number text.reverse, ⟨start, index⟩⟩ :: scan voc index .none rest := by
  cases rest with
  | nil => rfl
  | cons c rest =>
    simp only [scan, OpenToken.step_number_of_stops (h c rfl), List.cons_append]

/-- A word ends where its run of characters ends. -/
theorem scan_word_of_stops (h : Stops voc.isWordChar rest) :
    scan voc index (.word start text) rest =
      ⟨.word (String.ofList text.reverse), ⟨start, index⟩⟩ :: scan voc index .none rest := by
  cases rest with
  | nil => rfl
  | cons c rest =>
    simp only [scan, OpenToken.step_word_of_stops (h c rfl), List.cons_append]

/-- A run of characters of a number that begins with a digit or a point is a token, if it has at
most one point. -/
theorem scan_numeral (hbegins : (c.isDigit || c == '.') = true)
    (hrun : ∀ d ∈ run, isNumberChar d = true) (hpoints : (c :: run).count '.' ≤ 1)
    (hstops : Stops isNumberChar rest) :
    scan voc index .none (c :: (run ++ rest)) =
      ⟨.number (c :: run), ⟨index, index + 1 + run.length⟩⟩ ::
        scan voc (index + 1 + run.length) .none rest := by
  rw [scan_cons (OpenToken.step_none_number hbegins), scan_number hrun (by simpa using hpoints),
    scan_number_of_stops hstops]
  simp

/-- A run of characters of a word is a token. -/
theorem scan_name (hbegins : voc.isWordChar c = true)
    (hrun : ∀ d ∈ run, voc.isWordChar d = true) (hstops : Stops voc.isWordChar rest) :
    scan voc index .none (c :: (run ++ rest)) =
      ⟨.word (String.ofList (c :: run)), ⟨index, index + 1 + run.length⟩⟩ ::
        scan voc (index + 1 + run.length) .none rest := by
  rw [scan_cons (OpenToken.step_none_word hbegins), scan_word hrun, scan_word_of_stops hstops]
  simp

end Token

end Reckoner
