import Reckoner.Proofs.Token.Cut

/-!
# The lexemes of characters

What the characters of a line come to from a position on, said without a scanner: blanks are passed
over, and a run of characters that cannot be made longer is one lexeme, with its meaning and its
place. The scanner finds these lexemes where every token has a meaning, and finds no others.

Where a character follows that belongs to no number and no word, the lexemes in front of it and
those from it on do not depend on each other.
-/

namespace Reckoner

/-- The characters of a number: they begin with a digit or a decimal point, end in a digit and have
at most one decimal point. -/
structure IsNumeral (text : List Char) : Prop where
  all : ∀ c ∈ text, isNumberChar c = true
  head : text.head?.any (fun c ↦ c.isDigit || c == '.') = true
  last : text.getLast?.any Char.isDigit = true
  points : text.count '.' ≤ 1

namespace Vocabulary

/-- What the characters of one lexeme mean, and which characters would make it longer. -/
inductive Denotes (voc : Vocabulary) (scope : Scope) : List Char → Item → (Char → Bool) → Prop
  | opening : Denotes voc scope ['('] .opening fun _ ↦ false
  | closing : Denotes voc scope [')'] .closing fun _ ↦ false
  | sign {c : Char} {op : Operator} (hc : voc.sign? c = some op) :
    Denotes voc scope [c] (.operator op) fun _ ↦ false
  | number {text : List Char} (htext : IsNumeral text) :
    Denotes voc scope text (.number (readDecimal (text.filter (· ≠ ',')))) isNumberChar
  | operator {text : List Char} {op : Operator} (hne : text ≠ [])
    (htext : ∀ c ∈ text, voc.isWordChar c = true)
    (hnamed : voc.named? (String.ofList text) = some op) :
    Denotes voc scope text (.operator op) voc.isWordChar
  | value {text : List Char} {value : Float} (hne : text ≠ [])
    (htext : ∀ c ∈ text, voc.isWordChar c = true)
    (hnamed : voc.named? (String.ofList text) = none)
    (hvalue : scope.value? (String.ofList text) = some value) :
    Denotes voc scope text (.value value) voc.isWordChar

/-- Characters from a position on come to some lexemes. -/
inductive Lexes (voc : Vocabulary) (scope : Scope) : Nat → List Char → List Lexeme → Prop
  | nil {index : Nat} : Lexes voc scope index [] []
  | blank {index : Nat} {c : Char} {line : List Char} {lexemes : List Lexeme}
    (hc : isBlank c = true) (h : Lexes voc scope (index + 1) line lexemes) :
    Lexes voc scope index (c :: line) lexemes
  | token {index : Nat} {text line : List Char} {item : Item} {belongs : Char → Bool}
    {lexemes : List Lexeme} (htext : Denotes voc scope text item belongs)
    (hstops : Stops belongs line) (h : Lexes voc scope (index + text.length) line lexemes) :
    Lexes voc scope index (text ++ line) (⟨item, ⟨index, index + text.length⟩⟩ :: lexemes)

variable {voc : Vocabulary} {scope : Scope} {index : Nat} {text line rest : List Char} {c : Char}
  {item : Item} {belongs : Char → Bool} {lexemes others : List Lexeme}

/-! ## The scanner finds the lexemes -/

/-- The characters of a lexeme are a token with its meaning. -/
theorem Denotes.exists_scan_eq (h : voc.Denotes scope text item belongs)
    (hstops : Stops belongs line) (index : Nat) :
    ∃ kind, Token.scan voc index .none (text ++ line) =
        ⟨kind, ⟨index, index + text.length⟩⟩ ::
          Token.scan voc (index + text.length) .none line ∧
      (⟨kind, ⟨index, index + text.length⟩⟩ : Token).item voc scope = .ok item := by
  cases h with
  | opening => exact ⟨_, Token.scan_single OpenToken.step_none_opening, rfl⟩
  | closing => exact ⟨_, Token.scan_single OpenToken.step_none_closing, rfl⟩
  | sign hc => exact ⟨_, Token.scan_single (OpenToken.step_none_sign hc), rfl⟩
  | number htext =>
    cases text with
    | nil => cases htext.head
    | cons c run =>
      have hrun : ∀ d ∈ run, isNumberChar d = true :=
        fun d hd ↦ htext.all d (List.mem_cons_of_mem c hd)
      have hlength : index + (c :: run).length = index + 1 + run.length := by
        rw [List.length_cons, Nat.add_comm run.length, Nat.add_assoc]
      rw [hlength]
      exact ⟨_, Token.scan_numeral htext.head hrun htext.points hstops, if_pos htext.last⟩
  | operator hne htext hnamed | value hne htext hnamed hvalue =>
    cases text with
    | nil => exact absurd rfl hne
    | cons c run =>
      have hrun : ∀ d ∈ run, voc.isWordChar d = true :=
        fun d hd ↦ htext d (List.mem_cons_of_mem c hd)
      have hlength : index + (c :: run).length = index + 1 + run.length := by
        rw [List.length_cons, Nat.add_comm run.length, Nat.add_assoc]
      rw [hlength]
      refine ⟨_, Token.scan_name (htext c List.mem_cons_self) hrun hstops, ?_⟩
      simp only [Token.item, *]

/-- A lexeme has characters. -/
theorem Denotes.ne_nil (h : voc.Denotes scope text item belongs) : text ≠ [] := by
  cases h with
  | opening | closing | sign => exact List.cons_ne_nil _ _
  | number htext =>
    rintro rfl
    cases htext.head
  | operator hne | value hne => exact hne

/-- The characters of a word have its meaning. -/
theorem Denotes.of_item_word {span : Span} (hne : text ≠ [])
    (htext : ∀ c ∈ text, voc.isWordChar c = true)
    (hitem : (⟨.word (String.ofList text), span⟩ : Token).item voc scope = .ok item) :
    voc.Denotes scope text item voc.isWordChar := by
  simp only [Token.item] at hitem
  split at hitem
  · rename_i hnamed
    cases hitem
    exact .operator hne htext hnamed
  · rename_i hnamed hvalue
    cases hitem
    exact .value hne htext hnamed hvalue
  · cases hitem

/-- The tokens of characters mean the lexemes that the characters come to. -/
theorem Lexes.mapM_scan (h : voc.Lexes scope index line lexemes) :
    (Token.scan voc index .none line).mapM (Token.lexeme voc scope) = .ok lexemes := by
  induction h with
  | nil => rfl
  | blank hc _ ih =>
    rw [Token.scan_cons (OpenToken.step_none_blank hc)]
    exact ih
  | @token index text line item belongs lexemes htext hstops _ ih =>
    obtain ⟨kind, hscan, hitem⟩ := htext.exists_scan_eq hstops index
    rw [hscan]
    exact Token.mapM_lexeme_cons_eq_ok_iff.mpr ⟨item, lexemes, hitem, ih, rfl⟩

/-- Each of some tokens that have meanings has one. -/
theorem exists_item_of_mapM_lexeme {tokens : List Token} {token : Token}
    (h : tokens.mapM (Token.lexeme voc scope) = .ok lexemes) (htoken : token ∈ tokens) :
    ∃ item, token.item voc scope = .ok item := by
  induction tokens generalizing lexemes with
  | nil => cases htoken
  | cons first tokens ih =>
    obtain ⟨item, others, hitem, hothers, -⟩ := Token.mapM_lexeme_cons_eq_ok_iff.mp h
    rcases List.mem_cons.mp htoken with rfl | htoken
    · exact ⟨item, hitem⟩
    · exact ih hothers htoken

/-- Where the first token has the characters of a lexeme, the line comes to what the token means and
then to what is left. -/
theorem Lexes.of_scan_eq {index' : Nat} {kind : TokenKind} (text : List Char)
    (hstops : Stops belongs rest)
    (hindex : index + text.length = index')
    (hscan : Token.scan voc index .none (text ++ rest) =
      ⟨kind, ⟨index, index'⟩⟩ :: Token.scan voc index' .none rest)
    (hdenotes : ∀ item, (⟨kind, ⟨index, index'⟩⟩ : Token).item voc scope = .ok item →
      voc.Denotes scope text item belongs)
    (hrest : ∀ {index lexemes}, (Token.scan voc index .none rest).mapM
      (Token.lexeme voc scope) = .ok lexemes → voc.Lexes scope index rest lexemes)
    (h : (Token.scan voc index .none (text ++ rest)).mapM (Token.lexeme voc scope) =
      .ok lexemes) :
    voc.Lexes scope index (text ++ rest) lexemes := by
  subst hindex
  rw [hscan] at h
  obtain ⟨item, others, hitem, hothers, rfl⟩ := Token.mapM_lexeme_cons_eq_ok_iff.mp h
  exact .token (hdenotes item hitem) hstops (hrest hothers)

/-- A line that begins with a number comes to what its tokens mean, if what is left of it does. -/
theorem Lexes.of_mapM_scan_number (hbegins : (c.isDigit || c == '.') = true)
    (hrest : ∀ {rest index lexemes}, rest.length ≤ line.length →
      (Token.scan voc index .none rest).mapM (Token.lexeme voc scope) = .ok lexemes →
        voc.Lexes scope index rest lexemes)
    (h : (Token.scan voc index .none (c :: line)).mapM (Token.lexeme voc scope) = .ok lexemes) :
    voc.Lexes scope index (c :: line) lexemes := by
  obtain ⟨run, rest, rfl, hrun, hstops⟩ := exists_run isNumberChar line
  have hc : isNumberChar c = true := by
    rw [isNumberChar, hbegins]
    rfl
  by_cases hpoints : (c :: run).count '.' ≤ 1
  · have hscan : Token.scan voc index .none (c :: (run ++ rest)) = _ :=
      Token.scan_numeral hbegins hrun hpoints hstops
    refine of_scan_eq (c :: run) hstops ?_ hscan (fun item hitem ↦ ?_)
      (hrest (by simp)) h
    · rw [List.length_cons, Nat.add_comm run.length, Nat.add_assoc]
    · simp only [Token.item] at hitem
      split at hitem
      · rename_i hlast
        cases hitem
        exact .number ⟨List.forall_mem_cons.mpr ⟨hc, hrun⟩, hbegins, hlast, hpoints⟩
      · cases hitem
  · have hone : [c].count '.' ≤ 1 := List.count_le_length
    rw [Token.scan_cons (OpenToken.step_none_number hbegins)] at h
    obtain ⟨token, htoken, hkind⟩ :
        ∃ token ∈ Token.scan voc (index + 1) (.number index [c]) (run ++ rest),
          token.kind = .extraPoint :=
      Token.exists_extraPoint hrun hone (Nat.lt_of_not_le hpoints) rest
    obtain ⟨item, hitem⟩ := exists_item_of_mapM_lexeme h htoken
    rw [Token.item.eq_def, hkind] at hitem
    cases hitem

/-- A line that begins with a word comes to what its tokens mean, if what is left of it does. -/
theorem Lexes.of_mapM_scan_word (hbegins : voc.isWordChar c = true)
    (hrest : ∀ {rest index lexemes}, rest.length ≤ line.length →
      (Token.scan voc index .none rest).mapM (Token.lexeme voc scope) = .ok lexemes →
        voc.Lexes scope index rest lexemes)
    (h : (Token.scan voc index .none (c :: line)).mapM (Token.lexeme voc scope) = .ok lexemes) :
    voc.Lexes scope index (c :: line) lexemes := by
  obtain ⟨run, rest, rfl, hrun, hstops⟩ := exists_run voc.isWordChar line
  have hscan : Token.scan voc index .none (c :: (run ++ rest)) = _ :=
    Token.scan_name hbegins hrun hstops
  have hall : ∀ d ∈ c :: run, voc.isWordChar d = true := List.forall_mem_cons.mpr ⟨hbegins, hrun⟩
  refine of_scan_eq (c :: run) hstops ?_ hscan
    (fun item hitem ↦ .of_item_word (List.cons_ne_nil c run) hall hitem) (hrest (by simp)) h
  rw [List.length_cons, Nat.add_comm run.length, Nat.add_assoc]

/-- A line comes to what its tokens mean. -/
theorem Lexes.of_mapM_scan (line : List Char) :
    ∀ {index lexemes}, (Token.scan voc index .none line).mapM (Token.lexeme voc scope) =
      .ok lexemes → voc.Lexes scope index line lexemes := by
  induction hlength : line.length using Nat.strongRecOn generalizing line with
  | ind length ih =>
    subst hlength
    intro index lexemes h
    cases line with
    | nil =>
      cases h
      exact .nil
    | cons c line =>
      have hrest {rest index lexemes} (hle : rest.length ≤ line.length)
          (h : (Token.scan voc index .none rest).mapM (Token.lexeme voc scope) = .ok lexemes) :
          voc.Lexes scope index rest lexemes :=
        ih rest.length (Nat.lt_succ_of_le hle) rest rfl h
      have hsingle {kind : TokenKind} {item : Item}
          (hstep : OpenToken.none.step voc index c = ([⟨kind, .single index⟩], .none))
          (hitem : (⟨kind, .single index⟩ : Token).item voc scope = .ok item)
          (hdenotes : voc.Denotes scope [c] item fun _ ↦ false) :
          voc.Lexes scope index (c :: line) lexemes := by
        refine of_scan_eq [c] (fun _ _ ↦ rfl) rfl (Token.scan_single hstep)
          (fun item' hitem' ↦ ?_) (hrest (Nat.le_refl _)) h
        cases hitem.symm.trans hitem'
        exact hdenotes
      obtain ⟨use, huse⟩ : ∃ use, CharUse.Is voc c use := ⟨_, CharUse.is_of voc c⟩
      cases huse with
      | blank hc =>
        rw [Token.scan_cons (OpenToken.step_none_blank hc)] at h
        exact .blank hc (hrest (Nat.le_refl _) h)
      | opening hc =>
        subst hc
        exact hsingle OpenToken.step_none_opening rfl .opening
      | closing hc =>
        subst hc
        exact hsingle OpenToken.step_none_closing rfl .closing
      | sign hc => exact hsingle (OpenToken.step_none_sign hc) rfl (.sign hc)
      | digit hc => exact of_mapM_scan_number (by simp [hc]) hrest h
      | point hc => exact of_mapM_scan_number (by simp [hc]) hrest h
      | comma hc =>
        exact of_mapM_scan_word (isWordChar_iff.mpr (.inr (CharUse.Is.comma hc).of_eq)) hrest h
      | letter hreserved hsign =>
        have huse := (CharUse.Is.letter hreserved hsign).of_eq
        exact of_mapM_scan_word (isWordChar_iff.mpr (.inl huse)) hrest h

/-- Characters come to what their tokens mean, and to nothing else. -/
theorem lexes_iff : voc.Lexes scope index line lexemes ↔
    (Token.scan voc index .none line).mapM (Token.lexeme voc scope) = .ok lexemes :=
  ⟨Lexes.mapM_scan, Lexes.of_mapM_scan line⟩

theorem Lexes.unique (h : voc.Lexes scope index line lexemes)
    (h' : voc.Lexes scope index line others) : lexemes = others :=
  Except.ok.inj (h.mapM_scan.symm.trans h'.mapM_scan)

/-! ## Characters that end a number or a word -/

/-- What follows makes neither a number nor a word longer. -/
structure Parts (voc : Vocabulary) (line : List Char) : Prop where
  number : Stops isNumberChar line
  word : Stops voc.isWordChar line

namespace Parts

theorem nil : voc.Parts [] := ⟨fun _ ↦ nofun, fun _ ↦ nofun⟩

theorem opening : voc.Parts ('(' :: line) := by
  constructor <;> rintro c ⟨⟩
  · rfl
  · simp [isWordChar]

theorem closing : voc.Parts (')' :: line) := by
  constructor <;> rintro c ⟨⟩
  · rfl
  · simp [isWordChar]

/-- A blank has no part in a number or a word. -/
theorem blank (hc : isBlank c = true) : voc.Parts (c :: line) := by
  have huse : CharUse.of voc c = .blank := (CharUse.Is.blank hc).of_eq
  constructor <;> rintro c ⟨⟩
  · refine Bool.eq_false_iff.mpr fun h ↦ ?_
    rcases isNumberChar_iff.mp h with h | h | h <;> cases huse.symm.trans h
  · refine Bool.eq_false_iff.mpr fun h ↦ ?_
    rcases isWordChar_iff.mp h with h | h <;> cases huse.symm.trans h

theorem space : voc.Parts (' ' :: line) := .blank (by decide)

theorem sign {op : Operator} (hc : voc.sign? c = some op) : voc.Parts (c :: line) := by
  have huse := (CharUse.Is.sign hc).of_eq
  constructor <;> rintro c ⟨⟩
  · refine Bool.eq_false_iff.mpr fun h ↦ ?_
    rcases isNumberChar_iff.mp h with h | h | h <;> cases huse.symm.trans h
  · exact Bool.eq_false_iff.mpr fun h ↦ by simp [isWordChar_iff, huse] at h

/-- Whatever token is open ends in front of such characters. -/
theorem endsAt (h : voc.Parts rest) (current : OpenToken) : current.EndsAt voc rest := by
  cases current with
  | none => trivial
  | number => exact h.number
  | word => exact h.word

end Parts

/-- Tokens mean what those of two parts of them mean. -/
theorem mapM_lexeme_append_eq_ok_iff {tokens rest : List Token} :
    (tokens ++ rest).mapM (Token.lexeme voc scope) = .ok lexemes ↔
      ∃ before after, tokens.mapM (Token.lexeme voc scope) = .ok before ∧
        rest.mapM (Token.lexeme voc scope) = .ok after ∧ lexemes = before ++ after := by
  simp only [List.mapM_append, bind_eq_ok_iff]
  constructor
  · rintro ⟨before, hbefore, after, hafter, heq⟩
    exact ⟨before, after, hbefore, hafter, (Except.ok.inj heq).symm⟩
  · rintro ⟨before, after, hbefore, hafter, rfl⟩
    exact ⟨before, hbefore, after, hafter, rfl⟩

/-- The lexemes of some characters and of others behind them are those of the two. -/
theorem lexes_append_iff (hrest : voc.Parts rest) :
    voc.Lexes scope index (line ++ rest) lexemes ↔
      ∃ before after, voc.Lexes scope index line before ∧
        voc.Lexes scope (index + line.length) rest after ∧ lexemes = before ++ after := by
  simp only [lexes_iff, Token.scan_append_of_endsAt (hrest.endsAt _), mapM_lexeme_append_eq_ok_iff]

end Vocabulary

end Reckoner
