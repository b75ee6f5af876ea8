import Reckoner.Proofs.Expr.Agreement
import Reckoner.Proofs.Expr.Relocation
import Reckoner.Proofs.Outcome
import Reckoner.Proofs.Token.Cut
import Reckoner.Proofs.Vocabulary.Lookup
import Reckoner.Vocabulary.Standard

/-!
# Layout

A blank between the tokens of a line and a comma inside a number are layout: with one more of them
a line is read as the same expression, each part of it at the same characters, wherever these are
now. A line that is no expression is none with them either.

A blank ends the token in front of it, so it is put in where that token ends anyway, and the rest of
the line is the same further to the right. The one other place is a number with a second point. No
token of the line stands there and the line is refused, but with the blank the second point may be
that of another number. Then that number stands behind a value, and the line is refused for that.
-/

namespace Reckoner

/-! ## One character more -/

/-- One character is put in at a position. What stops behind the position is moved, and so is what
starts at the first position that is given or behind it. -/
def Relocation.insertion (first index : Nat) : Relocation where
  start s := if first ≤ s then s + 1 else s
  stop s := if index < s then s + 1 else s
  monotone_start a b h := by
    dsimp only
    split <;> split <;> omega
  monotone_stop a b h := by
    dsimp only
    split <;> split <;> omega

/-- A character that is layout at a position of a line, and what it moves. -/
inductive Vocabulary.IsLayout (voc : Vocabulary) (line : Line) (index : Nat) :
    Char → Relocation → Prop
  | blank {c : Char} (hc : isBlank c = true) (hindex : index ≤ line.length)
    (hbetween : ∀ token ∈ Token.ofLine voc line, token.isText = true →
      ¬(token.span.start < index ∧ index < token.span.stop)) :
    IsLayout voc line index c (.insertion index index)
  /-- The number may be one that has no second point only because the line is cut behind it. -/
  | comma {count : Nat} {token : Token} {text : List Char}
    (htoken : token ∈ Token.ofLine voc (line.take count)) (hkind : token.kind = .number text)
    (hstart : token.span.start < index) (hstop : index < token.span.stop) :
    IsLayout voc line index ',' (.insertion (index + 1) index)

/-- A character is put in between the two parts of a line. -/
theorem Line.insertIdx_append (front rest : Line) (c : Char) :
    (front ++ rest).insertIdx front.length c = front ++ c :: rest := by
  induction front with
  | nil => rfl
  | cons d front ih =>
    rw [List.cons_append, List.length_cons, List.insertIdx_succ_cons, ih]
    rfl

/-- Where a character of a line is when one is put in at a position. -/
def Line.placeAfter (index place : Nat) : Nat := if place < index then place else place + 1

/-- The characters of a line are where they are said to be. -/
theorem Line.getElem?_insertIdx_placeAfter (text : Line) (index : Nat) (c : Char) (place : Nat) :
    (text.insertIdx index c)[placeAfter index place]? = text[place]? := by
  rw [placeAfter]
  split
  · rename_i hlt
    rw [List.getElem?_insertIdx_of_lt hlt]
  · rename_i hle
    rw [List.getElem?_insertIdx_of_gt (by omega), Nat.add_sub_cancel]

/-- What stands in front of the insertion stays where it is. -/
theorem Span.relocate_insertion_of_liesOn {first index : Nat} {span : Span} (hle : index ≤ first)
    (h : span.LiesOn index) : span.relocate (.insertion first index) = span := by
  have hstart : ¬ first ≤ span.start :=
    Nat.not_le.mpr (Nat.lt_of_lt_of_le h.start_lt (Nat.le_trans h.stop_le hle))
  exact Span.ext (if_neg hstart) (if_neg (Nat.not_lt.mpr h.stop_le))

/-- What stands behind the insertion is moved by one. -/
theorem Span.relocate_insertion_of_le {first index : Nat} {span : Span}
    (hstart : first ≤ span.start) (hstop : index < span.stop) :
    span.relocate (.insertion first index) = span.relocate (.shift 1) :=
  Span.ext (if_pos hstart) (if_pos hstop)

/-- A span has the same characters after the insertion. -/
theorem Span.contains_relocate_insertion {first index : Nat} (hle : index ≤ first)
    (hfirst : first ≤ index + 1) (span : Span) (place : Nat) :
    (span.relocate (.insertion first index)).contains (Line.placeAfter index place) =
      span.contains place := by
  rw [Bool.eq_iff_iff, contains_iff, contains_iff]
  simp only [relocate, Relocation.insertion, Line.placeAfter]
  split <;> split <;> split <;> omega

/-- A run of characters that cannot be made longer cannot where the line is cut behind it either. -/
theorem Stops.take {belongs : Char → Bool} {rest : List Char} (h : Stops belongs rest)
    (count : Nat) : Stops belongs (rest.take count) := by
  cases count with
  | zero => exact fun _ ↦ nofun
  | succ count =>
    cases rest with
    | nil => exact h
    | cons c rest => exact h

/-! ## A number behind a value -/

/-- No line is accepted that has a number directly behind another number or a value. -/
theorem Phase.accepts_number_behind {terminal : Terminal}
    (hterminal : terminal = .number ∨ terminal = .value) (before rest : List Terminal)
    (phase : Phase) : phase.accepts (before ++ terminal :: .number :: rest) = false := by
  induction before generalizing phase with
  | nil =>
    obtain ⟨layer, complete⟩ := phase
    rcases hterminal with rfl | rfl <;> cases complete <;> rfl
  | cons first before ih =>
    rw [List.cons_append, Phase.accepts]
    cases phase.next? first with
    | none => rfl
    | some next => exact ih next

namespace Vocabulary

variable {voc : Vocabulary} {scope : Scope} {index : Nat} {c : Char}
  {line front run rest text : List Char} {item : Item} {belongs : Char → Bool}
  {lexemes : List Lexeme}

/-- A lexeme that begins with a digit or a point is a number. -/
theorem Denotes.exists_number (h : voc.Denotes scope text item belongs)
    (hc : text.head?.any (fun c ↦ c.isDigit || c == '.') = true) :
    ∃ value, item = .number value := by
  cases h with
  | opening | closing => cases hc
  | @sign c op hsign =>
    obtain ⟨-, hdigit, -, -, hpoint, -⟩ :=
      isReservedChar_eq_false_iff.mp (not_isReservedChar_of_sign? hsign)
    simp [hdigit, hpoint] at hc
  | number => exact ⟨_, rfl⟩
  | operator hne htext | value hne htext =>
    obtain ⟨c, rest, rfl⟩ := List.exists_cons_of_ne_nil hne
    have hword := htext c List.mem_cons_self
    rw [isWordChar] at hword
    simp_all

/-- Where a line begins with a character of a number it begins with a lexeme. -/
theorem Lexes.exists_token (h : voc.Lexes scope index (c :: line) lexemes)
    (hc : isNumberChar c = true) :
    ∃ run rest item belongs others, line = run ++ rest ∧
      voc.Denotes scope (c :: run) item belongs ∧ Stops belongs rest ∧
      voc.Lexes scope (index + (c :: run).length) rest others ∧
      lexemes.map Lexeme.terminal = item.terminal :: others.map Lexeme.terminal := by
  generalize hwhole : c :: line = whole at h
  cases h with
  | nil => cases hwhole
  | blank hblank =>
    cases hwhole
    have hparts : voc.Parts [c] := .blank hblank
    rw [hparts.number c rfl] at hc
    cases hc
  | @token _ text rest item belongs others htext hstops h =>
    obtain ⟨d, run, rfl⟩ := List.exists_cons_of_ne_nil htext.ne_nil
    cases hwhole
    exact ⟨run, rest, item, belongs, others, rfl, htext, hstops, h, rfl⟩

/-- Characters that begin with a digit or a point come to a number first. -/
theorem Lexes.exists_number (h : voc.Lexes scope index (c :: line) lexemes)
    (hc : (c.isDigit || c == '.') = true) :
    ∃ terminals, lexemes.map Lexeme.terminal = .number :: terminals := by
  have hnumber : isNumberChar c = true := by
    rw [isNumberChar, hc]
    rfl
  obtain ⟨run, rest, item, belongs, others, -, htext, -, -, hterminals⟩ := h.exists_token hnumber
  obtain ⟨value, rfl⟩ := htext.exists_number hc
  exact ⟨_, hterminals⟩

/-- A lexeme that begins with a comma is a value, since no operator has a comma in its name. -/
theorem Denotes.exists_value (h : voc.Denotes scope (',' :: text) item belongs) :
    belongs = voc.isWordChar ∧ (∃ value, item = .value value) ∧
      ∀ c ∈ text, voc.isWordChar c = true := by
  cases h with
  | sign hsign => exact absurd (not_isReservedChar_of_sign? hsign) (by decide)
  | number htext => cases htext.head
  | operator _ _ hnamed =>
    have hmem : ',' ∈ (String.ofList (',' :: text)).toList := by
      rw [String.toList_ofList]
      exact List.mem_cons_self
    exact absurd (not_isReservedChar (mem_symbols_of_named? hnamed) hmem) (by decide)
  | value _ htext => exact ⟨rfl, ⟨_, rfl⟩, fun c hc ↦ htext c (List.mem_cons_of_mem _ hc)⟩

/-- A character of a number is a digit or a point, or it is a comma. -/
theorem begins_or_eq_comma (hc : isNumberChar c = true) :
    (c.isDigit || c == '.') = true ∨ c = ',' := by
  simpa [isNumberChar] using hc

/-- A run of characters of a number that has a point comes to a number, or to a word of commas and a
number. -/
theorem Lexes.exists_number_of_run (h : voc.Lexes scope index (run ++ rest) lexemes)
    (hrun : ∀ c ∈ run, isNumberChar c = true) (hpoint : '.' ∈ run) :
    ∃ terminals, lexemes.map Lexeme.terminal = .number :: terminals ∨
      lexemes.map Lexeme.terminal = .value :: .number :: terminals := by
  obtain ⟨c, run, rfl⟩ := List.exists_cons_of_ne_nil (List.ne_nil_of_mem hpoint)
  have hc : isNumberChar c = true := hrun c List.mem_cons_self
  rcases begins_or_eq_comma hc with hbegins | rfl
  · obtain ⟨terminals, hterminals⟩ := h.exists_number hbegins
    exact ⟨terminals, .inl hterminals⟩
  obtain ⟨commas, others, item, belongs, after, hline, htext, hstops, hafter, hterminals⟩ :=
    h.exists_token hc
  obtain ⟨rfl, ⟨value, rfl⟩, hcommas⟩ := htext.exists_value
  have hnot : '.' ∉ commas := fun hmem ↦ absurd (hcommas '.' hmem) (by simp [isWordChar])
  have hmem : '.' ∈ run := by simpa using hpoint
  -- No point is in a word, so the word ends within the run.
  rcases List.append_eq_append_iff.mp hline with ⟨between, rfl, -⟩ | ⟨between, rfl, rfl⟩
  · exact absurd (List.mem_append_left _ hmem) hnot
  have hbetween : '.' ∈ between := (List.mem_append.mp hmem).resolve_left hnot
  obtain ⟨d, between, rfl⟩ := List.exists_cons_of_ne_nil (List.ne_nil_of_mem hbetween)
  have hd : isNumberChar d = true :=
    hrun d (List.mem_cons_of_mem _ (List.mem_append_right _ List.mem_cons_self))
  rcases begins_or_eq_comma hd with hbegins | rfl
  · obtain ⟨terminals, hnumber⟩ := hafter.exists_number hbegins
    rw [hnumber] at hterminals
    exact ⟨terminals, .inr hterminals⟩
  · have hword := hstops ',' rfl
    simp [isWordChar_iff.mpr (.inr (CharUse.Is.comma rfl).of_eq)] at hword

/-! ## The same lexemes elsewhere -/

/-- A line has the lexemes of another one at places that are moved, or neither is an expression. -/
structure Relaid (voc : Vocabulary) (scope : Scope) (move : Relocation) (line line' : Line) :
    Prop where
  lexes : ∀ lexemes, voc.Lexes scope 0 line lexemes →
    voc.Lexes scope 0 line' (lexemes.map (Lexeme.relocate move))
  exists_lexes : ∀ lexemes', voc.Lexes scope 0 line' lexemes' →
    Phase.start.accepts (lexemes'.map Lexeme.terminal) = true →
      ∃ lexemes, voc.Lexes scope 0 line lexemes

namespace Relaid

variable {move : Relocation} {line line' : Line} {expr : Expr}

/-- The expression is the same elsewhere. -/
theorem parse_eq (h : voc.Relaid scope move line line') (hparse : voc.parse scope line = .ok expr) :
    voc.parse scope line' = .ok (expr.relocate move) := by
  obtain ⟨⟨lexemes, hlexes, hresult⟩, hheight⟩ := parse_eq_ok_iff_lexes.mp hparse
  refine ((h.lexes lexemes hlexes).parse_eq_ok_iff ?_).mpr (expr.height_relocate.trans_le hheight)
  rw [Descent.awaiting_relocate, hresult]
  rfl

/-- A line without an expression has none afterwards. -/
theorem exists_parse (h : voc.Relaid scope move line line')
    (hparse : voc.parse scope line' = .ok expr) : ∃ expr, voc.parse scope line = .ok expr := by
  obtain ⟨⟨lexemes', hlexes', hresult'⟩, hheight⟩ := parse_eq_ok_iff_lexes.mp hparse
  have haccepts : Phase.start.accepts (lexemes'.map Lexeme.terminal) = true := by
    have hsome : (Descent.awaiting voc [] lexemes').isSome = Phase.start.accepts _ :=
      (Descent.isSome_eq_accepts lexemes').1 []
    rw [← hsome, hresult']
    rfl
  obtain ⟨lexemes, hlexes⟩ := h.exists_lexes lexemes' hlexes' haccepts
  obtain rfl := hlexes'.unique (h.lexes lexemes hlexes)
  rw [Descent.awaiting_relocate] at hresult'
  obtain ⟨tree, hresult, rfl⟩ := Option.map_eq_some_iff.mp hresult'
  rw [Expr.height_relocate] at hheight
  exact ⟨tree, (hlexes.parse_eq_ok_iff hresult).mpr hheight⟩

end Relaid

/-! ## Lexemes on either side of the insertion -/

/-- A lexeme stands where its token does. -/
theorem exists_token_of_mapM_lexeme {tokens : List Token} {lexeme : Lexeme}
    (h : tokens.mapM (Token.lexeme voc scope) = .ok lexemes) (hlexeme : lexeme ∈ lexemes) :
    ∃ token ∈ tokens, lexeme.span = token.span := by
  induction tokens generalizing lexemes with
  | nil =>
    cases h
    cases hlexeme
  | cons first tokens ih =>
    obtain ⟨item, others, -, hothers, rfl⟩ := Token.mapM_lexeme_cons_eq_ok_iff.mp h
    rcases List.mem_cons.mp hlexeme with rfl | hlexeme
    · exact ⟨first, List.mem_cons_self, rfl⟩
    · obtain ⟨token, htoken, hspan⟩ := ih hothers hlexeme
      exact ⟨token, List.mem_cons_of_mem _ htoken, hspan⟩

/-- Lexemes in front of the insertion stay where they are. -/
theorem map_relocate_of_liesOn {tokens : List Token} {first : Nat} (hfirst : index ≤ first)
    (h : tokens.mapM (Token.lexeme voc scope) = .ok lexemes)
    (hlies : ∀ token ∈ tokens, token.span.LiesOn index) :
    lexemes.map (Lexeme.relocate (.insertion first index)) = lexemes := by
  have hstays : ∀ lexeme ∈ lexemes, lexeme.relocate (.insertion first index) = lexeme := by
    intro lexeme hlexeme
    obtain ⟨token, htoken, hspan⟩ := exists_token_of_mapM_lexeme h hlexeme
    have hlies := hlies token htoken
    rw [← hspan] at hlies
    rw [Lexeme.relocate, Span.relocate_insertion_of_liesOn hfirst hlies]
  calc lexemes.map (Lexeme.relocate (.insertion first index))
    _ = lexemes.map id := List.map_congr_left hstays
    _ = lexemes := List.map_id lexemes

/-- Lexemes behind the insertion are moved by one. -/
theorem Lexes.map_relocate {first place : Nat} (h : voc.Lexes scope place line lexemes)
    (hfirst : first ≤ place) (hindex : index ≤ place) :
    lexemes.map (Lexeme.relocate (.insertion first index)) =
      lexemes.map (Lexeme.relocate (.shift 1)) := by
  refine List.map_congr_left fun lexeme hlexeme ↦ ?_
  obtain ⟨token, htoken, hspan⟩ := exists_token_of_mapM_lexeme h.mapM_scan hlexeme
  have hstart := Token.le_start_of_mem_scan htoken
  have hbegan : OpenToken.none.BeganBefore place := trivial
  have hlt := (Token.liesOn_of_mem_scan line hbegan htoken).start_lt
  rw [← hspan] at hstart hlt
  rw [Lexeme.relocate, Lexeme.relocate, Span.relocate_insertion_of_le (hfirst.trans hstart)]
  exact Nat.lt_of_le_of_lt (hindex.trans hstart) hlt

/-! ## A blank more -/

/-- Where a number is open, what has been read ends in a number. -/
theorem Lexes.exists_number_last {start : Nat} (h : voc.Lexes scope 0 front lexemes)
    (hopen : (Token.scanned voc 0 .none front).2 = .number start text) :
    ∃ terminals, lexemes.map Lexeme.terminal = terminals ++ [.number] := by
  have htokens := h.mapM_scan
  rw [Token.scan_eq_scanned, hopen] at htokens
  obtain ⟨before, after, -, hafter, rfl⟩ := mapM_lexeme_append_eq_ok_iff.mp htokens
  obtain ⟨item, others, hitem, hothers, rfl⟩ := Token.mapM_lexeme_cons_eq_ok_iff.mp hafter
  cases hothers
  obtain ⟨value, rfl⟩ : ∃ value, item = .number value := by
    simp only [Token.item] at hitem
    split at hitem
    · exact ⟨_, (Except.ok.inj hitem).symm⟩
    · cases hitem
  exact ⟨_, List.map_append⟩

/-- No token of a line that comes to lexemes is a second point. -/
theorem Lexes.kind_ne_extraPoint {token : Token} (h : voc.Lexes scope 0 line lexemes)
    (htoken : token ∈ Token.ofLine voc line) : token.kind ≠ .extraPoint := by
  obtain ⟨item, hitem⟩ := exists_item_of_mapM_lexeme h.mapM_scan htoken
  intro hkind
  rw [Token.item.eq_def, hkind] at hitem
  cases hitem

/-- A blank where the open token ends, or none is open, leaves the lexemes as they are. -/
theorem relaid_of_endsAt (hc : isBlank c = true)
    (hends : (Token.scanned voc 0 .none front).2.EndsAt voc rest) :
    voc.Relaid scope (.insertion front.length front.length) (front ++ rest)
      (front ++ c :: rest) := by
  have hparts : voc.Parts (c :: rest) := .blank hc
  have hcut {lexemes : List Lexeme} : voc.Lexes scope 0 (front ++ rest) lexemes ↔
      ∃ before after, voc.Lexes scope 0 front before ∧
        voc.Lexes scope front.length rest after ∧ lexemes = before ++ after := by
    simp only [lexes_iff, Token.scan_append_of_endsAt hends, mapM_lexeme_append_eq_ok_iff,
      Nat.zero_add]
  constructor
  · intro lexemes hlexes
    obtain ⟨before, after, hbefore, hafter, rfl⟩ := hcut.mp hlexes
    have hmoved := hafter.shift 1
    have hlies (token : Token) (htoken : token ∈ Token.ofLine voc front) :
        token.span.LiesOn front.length := Token.liesOn_of_mem_ofLine htoken
    rw [List.map_append, map_relocate_of_liesOn (Nat.le_refl _) hbefore.mapM_scan hlies,
      hafter.map_relocate (Nat.le_refl _) (Nat.le_refl _), lexes_append_iff hparts]
    refine ⟨before, _, hbefore, .blank hc ?_, rfl⟩
    rwa [Nat.zero_add]
  · intro lexemes' hlexes' _
    obtain ⟨before, after, hbefore, hafter, rfl⟩ := (lexes_append_iff hparts).mp hlexes'
    rw [lexes_iff, Token.scan_cons (OpenToken.step_none_blank hc), ← lexes_iff] at hafter
    obtain ⟨others, hothers⟩ := hafter.exists_lexes front.length
    exact ⟨_, hcut.mpr ⟨before, others, hbefore, hothers, rfl⟩⟩

/-- Where a number is open and gets a second point, the line comes to no lexemes. -/
theorem not_lexes_of_extraPoint {start : Nat}
    (hopen : (Token.scanned voc 0 .none front).2 = .number start text)
    (hrun : ∀ c ∈ run, isNumberChar c = true) (hpoints : 1 < (text.reverse ++ run).count '.') :
    ¬ voc.Lexes scope 0 (front ++ (run ++ rest)) lexemes := by
  have hpoint : (Token.scanned voc 0 .none front).2.AtMostOnePoint :=
    Token.atMostOnePoint_scanned front trivial
  rw [hopen] at hpoint
  obtain ⟨token, htoken, hkind⟩ := Token.exists_extraPoint hrun hpoint hpoints rest
  have hmem := List.mem_append_right (Token.scanned voc 0 .none front).1 htoken
  rw [← hopen, ← Token.ofLine_append] at hmem
  exact fun hlexes ↦ hlexes.kind_ne_extraPoint hmem hkind

/-- A blank in a number with a second point leaves the line without an expression. -/
theorem relaid_of_extraPoint {start : Nat} (move : Relocation) (hc : isBlank c = true)
    (hopen : (Token.scanned voc 0 .none front).2 = .number start text)
    (hrun : ∀ c ∈ run, isNumberChar c = true) (hpoints : 1 < (text.reverse ++ run).count '.') :
    voc.Relaid scope move (front ++ (run ++ rest)) (front ++ c :: (run ++ rest)) := by
  constructor
  · intro lexemes hlexes
    exact absurd hlexes (not_lexes_of_extraPoint hopen hrun hpoints)
  · intro lexemes' hlexes' haccepts
    exfalso
    have hmem : '.' ∈ run := by
      have hpoint : (Token.scanned voc 0 .none front).2.AtMostOnePoint :=
        Token.atMostOnePoint_scanned front trivial
      rw [hopen] at hpoint
      have hcount : text.count '.' ≤ 1 := hpoint
      rw [List.count_append, List.count_reverse] at hpoints
      exact List.count_pos_iff.mp (by omega)
    obtain ⟨before, after, hbefore, hafter, rfl⟩ :=
      (lexes_append_iff (.blank hc)).mp hlexes'
    rw [lexes_iff, Token.scan_cons (OpenToken.step_none_blank hc), ← lexes_iff] at hafter
    obtain ⟨terminals, hterminals⟩ := hbefore.exists_number_last hopen
    obtain ⟨others, hothers | hothers⟩ := hafter.exists_number_of_run hrun hmem
    · rw [List.map_append, hterminals, hothers, List.append_assoc, List.singleton_append,
        Phase.accepts_number_behind (.inl rfl)] at haccepts
      cases haccepts
    · rw [List.map_append, hterminals, hothers, Phase.accepts_number_behind (.inr rfl)]
        at haccepts
      cases haccepts

/-- A blank between tokens leaves the lexemes as they are, or the line without an expression. -/
theorem relaid_blank (hc : isBlank c = true)
    (hbetween : ∀ token ∈ Token.ofLine voc (front ++ rest), token.isText = true →
      ¬(token.span.start < front.length ∧ front.length < token.span.stop)) :
    voc.Relaid scope (.insertion front.length front.length) (front ++ rest)
      (front ++ c :: rest) := by
  by_cases hends : (Token.scanned voc 0 .none front).2.EndsAt voc rest
  · exact relaid_of_endsAt hc hends
  have hpoint : (Token.scanned voc 0 .none front).2.AtMostOnePoint :=
    Token.atMostOnePoint_scanned front trivial
  generalize hopen : (Token.scanned voc 0 .none front).2 = current at hpoint hends
  have hgoesOn : Token.GoesOn voc front.length current rest _ :=
    Token.goesOn_of_not_endsAt hpoint hends
  generalize hscan : Token.scan voc front.length current rest = tokens at hgoesOn
  cases hgoesOn with
  | extraPoint hrun hpoints => exact relaid_of_extraPoint _ hc hopen hrun hpoints
  | @number start text run rest hne | @word start text run rest hne =>
    have hline : Token.ofLine voc (front ++ (run ++ rest)) = _ := Token.ofLine_append front _
    rw [hopen, hscan] at hline
    have hstart := (Token.lt_of_start?_scanned (congrArg OpenToken.start? hopen)).1
    have hlength := List.length_pos_iff.mpr hne
    have hnot := hbetween _ (hline ▸ List.mem_append_right _ List.mem_cons_self) rfl
    exact absurd ⟨hstart, Nat.lt_add_of_pos_right hlength⟩ hnot

/-! ## A comma more -/

/-- Where a number is open and goes on, with one point at most, it is a lexeme between those in
front of it and those behind it. -/
theorem lexes_open_number_iff {start : Nat}
    (hopen : (Token.scanned voc 0 .none front).2 = .number start text)
    (hrun : ∀ c ∈ run, isNumberChar c = true) (hpoints : (text.reverse ++ run).count '.' ≤ 1)
    (hstops : Stops isNumberChar rest) :
    voc.Lexes scope 0 (front ++ (run ++ rest)) lexemes ↔ ∃ before item after,
      (Token.scanned voc 0 .none front).1.mapM (Token.lexeme voc scope) = .ok before ∧
      (⟨.number (text.reverse ++ run), ⟨start, front.length + run.length⟩⟩ : Token).item voc
        scope = .ok item ∧
      voc.Lexes scope (front.length + run.length) rest after ∧
      lexemes = before ++ ⟨item, ⟨start, front.length + run.length⟩⟩ :: after := by
  have hline : Token.ofLine voc (front ++ (run ++ rest)) = (Token.scanned voc 0 .none front).1 ++
      ⟨.number (text.reverse ++ run), ⟨start, front.length + run.length⟩⟩ ::
        Token.scan voc (front.length + run.length) .none rest := by
    rw [Token.ofLine_append, hopen, Token.scan_number hrun hpoints,
      Token.scan_number_of_stops hstops, List.reverse_append, List.reverse_reverse]
  rw [lexes_iff, ← Token.ofLine, hline, mapM_lexeme_append_eq_ok_iff]
  simp only [Token.mapM_lexeme_cons_eq_ok_iff, ← lexes_iff]
  constructor
  · rintro ⟨before, _, hbefore, ⟨item, after, hitem, hafter, rfl⟩, rfl⟩
    exact ⟨before, item, after, hbefore, hitem, hafter, rfl⟩
  · rintro ⟨before, item, after, hbefore, hitem, hafter, rfl⟩
    exact ⟨before, _, hbefore, ⟨item, after, hitem, hafter, rfl⟩, rfl⟩

/-- A comma within a number does not change what the number means. -/
theorem Token.item_number_comma {span span' : Span} (hne : run ≠ []) :
    (⟨.number (text ++ ',' :: run), span'⟩ : Token).item voc scope = .ok item ↔
      (⟨.number (text ++ run), span⟩ : Token).item voc scope = .ok item := by
  have hlast : (text ++ ',' :: run).getLast? = (text ++ run).getLast? := by
    rw [List.getLast?_append_of_ne_nil _ (List.cons_ne_nil _ _),
      List.getLast?_cons_of_ne_nil hne, List.getLast?_append_of_ne_nil _ hne]
  have hdigits : (text ++ ',' :: run).filter (· ≠ ',') = (text ++ run).filter (· ≠ ',') := by
    simp
  simp only [Token.item, hlast, hdigits]
  split <;> simp

/-- A comma in a number leaves the lexemes as they are, or the line without an expression. -/
theorem relaid_of_open_number {start : Nat}
    (hopen : (Token.scanned voc 0 .none front).2 = .number start text)
    (hrest : ¬ Stops isNumberChar rest) :
    voc.Relaid scope (.insertion (front.length + 1) front.length) (front ++ rest)
      (front ++ ',' :: rest) := by
  obtain ⟨run, rest, rfl, hrun, hstops⟩ := exists_run isNumberChar rest
  have hne := Token.ne_nil_of_not_stops hstops hrest
  have hcomma : ∀ c ∈ ',' :: run, isNumberChar c = true := List.forall_mem_cons.mpr ⟨rfl, hrun⟩
  have hcount : (text.reverse ++ ',' :: run).count '.' = (text.reverse ++ run).count '.' := by
    simp
  rw [← List.cons_append]
  by_cases hpoints : (text.reverse ++ run).count '.' ≤ 1
  · have hpoints' := hcount.trans_le hpoints
    constructor
    · intro lexemes hlexes
      obtain ⟨before, item, after, hbefore, hitem, hafter, rfl⟩ :=
        (lexes_open_number_iff hopen hrun hpoints hstops).mp hlexes
      refine (lexes_open_number_iff hopen hcomma hpoints' hstops).mpr
        ⟨before, item, _, hbefore, (Token.item_number_comma hne).mpr hitem, hafter.shift 1, ?_⟩
      have hstart := (Token.lt_of_start?_scanned (congrArg OpenToken.start? hopen)).1
      have hlength := List.length_pos_iff.mpr hne
      have hspan : Span.relocate (.insertion (front.length + 1) front.length)
          ⟨start, front.length + run.length⟩ = ⟨start, front.length + (',' :: run).length⟩ :=
        Span.ext (if_neg (Nat.not_le.mpr (Nat.lt_succ_of_lt hstart)))
          (if_pos (Nat.lt_add_of_pos_right hlength))
      rw [List.map_append, List.map_cons, Lexeme.relocate, hspan,
        map_relocate_of_liesOn (Nat.le_succ _) hbefore fun _ ↦ Token.liesOn_of_mem_scanned,
        hafter.map_relocate (Nat.add_le_add_left hlength _) (Nat.le_add_right _ _)]
    · intro lexemes' hlexes' _
      obtain ⟨before, item, after, hbefore, hitem, hafter, -⟩ :=
        (lexes_open_number_iff hopen hcomma hpoints' hstops).mp hlexes'
      obtain ⟨others, hothers⟩ := hafter.exists_lexes (front.length + run.length)
      exact ⟨_, (lexes_open_number_iff hopen hrun hpoints hstops).mpr
        ⟨before, item, others, hbefore, (Token.item_number_comma hne).mp hitem, hothers, rfl⟩⟩
  · have hextra := Nat.lt_of_not_le hpoints
    constructor
    · intro lexemes hlexes
      exact absurd hlexes (not_lexes_of_extraPoint hopen hrun hextra)
    · intro lexemes' hlexes' _
      exact absurd hlexes' (not_lexes_of_extraPoint hopen hcomma (hextra.trans_eq hcount.symm))

/-- A number that stands on both sides of a position is open there and goes on. -/
theorem exists_open_number {token : Token} (htoken : token ∈ Token.ofLine voc (front ++ rest))
    (hkind : token.kind = .number text) (hstart : token.span.start < front.length)
    (hstop : front.length < token.span.stop) :
    ∃ start text, (Token.scanned voc 0 .none front).2 = .number start text ∧
      ¬ Stops isNumberChar rest := by
  have hnone {index : Nat} {line : List Char} (hle : front.length ≤ index) :
      token ∉ Token.scan voc index .none line :=
    fun hmem ↦ absurd (hle.trans (Token.le_start_of_mem_scan hmem)) (Nat.not_le.mpr hstart)
  have hpoint : (Token.scanned voc 0 .none front).2.AtMostOnePoint :=
    Token.atMostOnePoint_scanned front trivial
  rw [Token.ofLine_append] at htoken
  rcases List.mem_append.mp htoken with htoken | htoken
  · exact absurd (Token.liesOn_of_mem_scanned htoken).stop_le (Nat.not_le.mpr hstop)
  generalize (Token.scanned voc 0 .none front).2 = current at hpoint htoken
  by_cases hends : current.EndsAt voc rest
  · rw [Token.scan_of_endsAt hends] at htoken
    rcases List.mem_append.mp htoken with htoken | htoken
    · have hspan : token.span.stop = front.length := by
        cases current with
        | none => cases htoken
        | _ => rw [List.mem_singleton.mp htoken]
      omega
    · exact absurd htoken (hnone (Nat.le_refl _))
  · have hgoesOn : Token.GoesOn voc front.length current rest _ :=
      Token.goesOn_of_not_endsAt hpoint hends
    generalize Token.scan voc front.length current rest = tokens at hgoesOn htoken
    cases hgoesOn with
    | number | extraPoint => exact ⟨_, _, rfl, hends⟩
    | word =>
      rcases List.mem_cons.mp htoken with rfl | htoken
      · cases hkind
      · exact absurd htoken (hnone (Nat.le_add_right _ _))

end Vocabulary

/-! ## Layout does not matter -/

namespace Vocabulary

variable {voc : Vocabulary} {scope : Scope} {line : Line} {index : Nat} {c : Char}
  {move : Relocation} {expr : Expr}

/-- Layout is put in on the line. -/
theorem IsLayout.le_length (h : voc.IsLayout line index c move) : index ≤ line.length := by
  cases h with
  | blank _ hindex => exact hindex
  | @comma count token text htoken _ _ hstop =>
    have hle := (Token.liesOn_of_mem_ofLine htoken).stop_le
    rw [List.length_take] at hle
    omega

/-- With layout put in, a line has its lexemes at places that are moved, or it has no expression and
still has none. -/
theorem IsLayout.relaid (h : voc.IsLayout line index c move) (scope : Scope) :
    voc.Relaid scope move line (line.insertIdx index c) := by
  obtain ⟨front, rest, rfl, rfl⟩ : ∃ front rest, front ++ rest = line ∧ front.length = index :=
    ⟨_, _, List.take_append_drop index line, List.length_take_of_le h.le_length⟩
  rw [Line.insertIdx_append]
  cases h with
  | blank hc _ hbetween => exact relaid_blank hc hbetween
  | @comma count token text htoken hkind hstart hstop =>
    have hcount : front.length ≤ count := by
      have hle := (Token.liesOn_of_mem_ofLine htoken).stop_le
      rw [List.length_take] at hle
      omega
    rw [List.take_append, List.take_of_length_le hcount] at htoken
    obtain ⟨start, text, hopen, hrest⟩ := exists_open_number htoken hkind hstart hstop
    exact relaid_of_open_number hopen fun hstops ↦ hrest (hstops.take _)

/-- A line is an expression with layout put in if and only if it is one without. It is the same
expression, its spans are moved, and so it has the same value or the same fault; and the characters
of each part are the same ones, wherever they are now. -/
theorem parse_insertIdx {text : Line} (h : voc.IsLayout text index c move) (scope : Scope) :
    ((∃ expr, voc.parse scope (text.insertIdx index c) = .ok expr) ↔
      ∃ expr, voc.parse scope text = .ok expr) ∧
    ∀ expr, voc.parse scope text = .ok expr →
      voc.parse scope (text.insertIdx index c) = .ok (expr.relocate move) ∧
      voc.calculate scope (text.insertIdx index c) =
        (voc.calculate scope text).mapError (Located.relocate move) ∧
      ∀ part : Expr, part.IsPart expr →
        (part.relocate move).IsPart (expr.relocate move) ∧
        ∀ place, (text.insertIdx index c)[Line.placeAfter index place]? = text[place]? ∧
          (part.relocate move).span.contains (Line.placeAfter index place) =
            part.span.contains place := by
  have hrelaid := h.relaid scope
  refine ⟨⟨fun ⟨_, hparse⟩ ↦ hrelaid.exists_parse hparse,
    fun ⟨_, hparse⟩ ↦ ⟨_, hrelaid.parse_eq hparse⟩⟩, fun expr hparse ↦ ?_⟩
  have hparse' := hrelaid.parse_eq hparse
  refine ⟨hparse', ?_, fun part hpart ↦ ⟨hpart.relocate, fun place ↦ ?_⟩⟩
  · rw [calculate, calculate, hparse, hparse']
    change (expr.relocate move).value.mapError _ = (expr.value.mapError _).mapError _
    rw [Expr.value_relocate]
    cases expr.value <;> rfl
  · refine ⟨Line.getElem?_insertIdx_placeAfter text index c place, ?_⟩
    rw [Expr.span_relocate]
    cases h with
    | blank => exact Span.contains_relocate_insertion (Nat.le_refl _) (Nat.le_succ _) _ _
    | comma => exact Span.contains_relocate_insertion (Nat.le_succ _) (Nat.le_refl _) _ _

/-- A tab between a number and a function, and a comma in the number. -/
theorem parse_insertIdx_standard : ∃ expr,
    standard.parse .bare "2500sqrt(16)".toList = .ok expr ∧
    standard.IsLayout "2500sqrt(16)".toList 4 '\t' (.insertion 4 4) ∧
    standard.parse .bare "2500\tsqrt(16)".toList = .ok (expr.relocate (.insertion 4 4)) ∧
    standard.IsLayout "2500sqrt(16)".toList 1 ',' (.insertion 2 1) ∧
    standard.parse .bare "2,500sqrt(16)".toList = .ok (expr.relocate (.insertion 2 1)) := by
  have hchecked : (standard.parse .bare "2500sqrt(16)".toList).toOption.isSome = true := by
    decide +kernel
  obtain ⟨expr, hparse⟩ := exists_of_isSome_toOption hchecked
  have htokens : Token.ofLine standard "2500sqrt(16)".toList =
      [⟨.number "2500".toList, ⟨0, 4⟩⟩, ⟨.word "sqrt", ⟨4, 8⟩⟩, ⟨.opening, ⟨8, 9⟩⟩,
        ⟨.number "16".toList, ⟨9, 11⟩⟩, ⟨.closing, ⟨11, 12⟩⟩] := by
    rfl
  have htab : standard.IsLayout "2500sqrt(16)".toList 4 '\t' (.insertion 4 4) := by
    refine .blank (by decide) (by decide) ?_
    rw [htokens]
    simp
  have hcomma : standard.IsLayout "2500sqrt(16)".toList 1 ',' (.insertion 2 1) := by
    have hmem : (⟨.number "2500".toList, ⟨0, 4⟩⟩ : Token) ∈
        Token.ofLine standard ("2500sqrt(16)".toList.take 12) := by
      change _ ∈ Token.ofLine standard "2500sqrt(16)".toList
      rw [htokens]
      exact List.mem_cons_self
    exact .comma hmem rfl (by decide) (by decide)
  exact ⟨expr, hparse, htab, ((parse_insertIdx htab .bare).2 expr hparse).1, hcomma,
    ((parse_insertIdx hcomma .bare).2 expr hparse).1⟩

end Vocabulary

end Reckoner
