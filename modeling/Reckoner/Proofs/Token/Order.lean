import Reckoner.Token.Basic

/-!
# Tokens stand one after the other

The spans of the tokens of a line do not overlap and go from left to right, and each token has at
least one character of the line.
-/

namespace Reckoner

namespace Token

/-- Tokens stand one after the other, from a position on. -/
inductive Ordered : Nat → List Token → Prop
  | nil {start : Nat} : Ordered start []
  | cons {start : Nat} {token : Token} {rest : List Token}
    (hstart : start ≤ token.span.start) (hspan : token.span.start ≤ token.span.stop)
    (hrest : Ordered token.span.stop rest) : Ordered start (token :: rest)

variable {start start' stop index : Nat} {tokens rest : List Token}

/-- Tokens that stand behind a position stand behind every position in front of it. -/
theorem Ordered.mono (h : Ordered start' tokens) (hle : start ≤ start') :
    Ordered start tokens := by
  cases h with
  | nil => exact .nil
  | cons hstart hspan hrest => exact .cons (Nat.le_trans hle hstart) hspan hrest

/-- The first tokens stand in their order. -/
theorem Ordered.of_append (h : Ordered start (tokens ++ rest)) : Ordered start tokens := by
  induction tokens generalizing start with
  | nil => exact .nil
  | cons token tokens ih =>
    cases h with
    | cons hstart hspan htokens => exact .cons hstart hspan (ih htokens)

/-- A single character stands in front of what follows it. -/
theorem Ordered.single (h : Ordered (index + 1) tokens) (kind : TokenKind) :
    Ordered index (⟨kind, .single index⟩ :: tokens) :=
  .cons (Nat.le_refl index) (Nat.le_succ index) h

end Token

namespace OpenToken

/-- The open token began between two positions. -/
def BeganIn (start stop : Nat) : OpenToken → Prop
  | none => start ≤ stop
  | number begin _ | word begin _ => start ≤ begin ∧ begin ≤ stop

variable {start stop index : Nat} {current : OpenToken}

theorem BeganIn.le (h : current.BeganIn start stop) : start ≤ stop := by
  cases current with
  | none => exact h
  | _ => exact Nat.le_trans h.1 h.2

/-- The open token goes on. -/
theorem BeganIn.succ (h : current.BeganIn start stop) : current.BeganIn start (stop + 1) := by
  cases current with
  | none => exact Nat.le_succ_of_le h
  | _ => exact ⟨h.1, Nat.le_succ_of_le h.2⟩

/-- The open token ends in front of what follows it. -/
theorem BeganIn.ordered_append {tokens : List Token} (h : current.BeganIn start stop)
    (htokens : Token.Ordered stop tokens) :
    Token.Ordered start (current.tokens stop ++ tokens) := by
  cases current with
  | none => exact htokens.mono h
  | _ => exact .cons h.1 h.2 htokens

/-- What a character can do to the open token: end it, go on with it, begin another or stand for
itself. -/
inductive Steps (index : Nat) (c : Char) : OpenToken → List Token × OpenToken → Prop
  | ends (current : OpenToken) : Steps index c current (current.tokens index, none)
  | beginsNumber (current : OpenToken) :
    Steps index c current (current.tokens index, number index [c])
  | beginsWord (current : OpenToken) :
    Steps index c current (current.tokens index, word index [c])
  | number (start : Nat) (text : List Char) :
    Steps index c (number start text) ([], number start (c :: text))
  | word (start : Nat) (text : List Char) :
    Steps index c (word start text) ([], word start (c :: text))
  | stands (current : OpenToken) (kind : TokenKind)
    (hkind : (Token.mk kind (.single index)).isText = false) :
    Steps index c current (current.tokens index ++ [⟨kind, .single index⟩], none)
  | extraPoint (start : Nat) (text : List Char) :
    Steps index c (number start text) ([⟨.extraPoint, .single index⟩], none)

theorem steps_step (voc : Vocabulary) (index : Nat) (c : Char) (current : OpenToken) :
    Steps index c current (current.step voc index c) := by
  rw [step.eq_def]
  cases CharUse.of voc c with
  | blank => exact .ends current
  | opening => exact .stands current .opening rfl
  | closing => exact .stands current .closing rfl
  | sign op => exact .stands current (.sign op) rfl
  | digit =>
    cases current with
    | number start text => exact .number start text
    | _ => exact .beginsNumber _
  | point =>
    cases current with
    | number start text =>
      dsimp only
      split
      · exact .extraPoint start text
      · exact .number start text
    | _ => exact .beginsNumber _
  | comma =>
    cases current with
    | none => exact .beginsWord none
    | number start text => exact .number start text
    | word start text => exact .word start text
  | letter =>
    cases current with
    | word start text => exact .word start text
    | _ => exact .beginsWord _

/-- What a character does to the open token leaves the tokens in their order. -/
theorem Steps.ordered {c : Char} {next : List Token × OpenToken} {rest : List Token}
    (h : Steps index c current next) (hbegan : current.BeganIn start index)
    (hrest : ∀ begin, next.2.BeganIn begin (index + 1) → Token.Ordered begin rest) :
    Token.Ordered start (next.1 ++ rest) := by
  have hnext : index ≤ index + 1 := Nat.le_succ index
  cases h with
  | ends => exact hbegan.ordered_append (hrest index hnext)
  | beginsNumber => exact hbegan.ordered_append (hrest index ⟨Nat.le_refl index, hnext⟩)
  | beginsWord => exact hbegan.ordered_append (hrest index ⟨Nat.le_refl index, hnext⟩)
  | number => exact hrest start hbegan.succ
  | word => exact hrest start hbegan.succ
  | stands =>
    rw [List.append_assoc]
    exact hbegan.ordered_append ((hrest (index + 1) (Nat.le_refl _)).single _)
  | extraPoint => exact ((hrest (index + 1) (Nat.le_refl _)).single _).mono hbegan.le

end OpenToken

namespace Token

/-- The tokens that are scanned from a position on stand in their order. -/
theorem ordered_scan (voc : Vocabulary) (line : List Char) :
    ∀ {start index : Nat} {current : OpenToken}, current.BeganIn start index →
      Ordered start (scan voc index current line) := by
  induction line with
  | nil =>
    intro start index current hbegan
    have hordered : Ordered start (current.tokens index ++ []) := hbegan.ordered_append .nil
    rwa [List.append_nil] at hordered
  | cons c line ih =>
    intro start index current hbegan
    exact (OpenToken.steps_step voc index c current).ordered hbegan fun _ ↦ ih

/-- The tokens of a line stand in their order. -/
theorem ordered_ofLine (voc : Vocabulary) (line : Line) : Ordered 0 (ofLine voc line) :=
  ordered_scan voc line (Nat.le_refl 0)

end Token

/-! ## Tokens have characters of the line -/

/-- A span has at least one character, and all its characters are on a line of the length given. -/
structure Span.LiesOn (length : Nat) (span : Span) : Prop where
  start_lt : span.start < span.stop
  stop_le : span.stop ≤ length

namespace OpenToken

variable {index length : Nat} {current : OpenToken} {token : Token}

/-- The open token began in front of a position. -/
def BeganBefore (stop : Nat) : OpenToken → Prop
  | none => True
  | number begin _ | word begin _ => begin < stop

/-- The open token goes on. -/
theorem BeganBefore.succ (h : current.BeganBefore index) : current.BeganBefore (index + 1) := by
  cases current with
  | none => trivial
  | _ => exact Nat.lt_succ_of_lt h

/-- The open token has a character when it ends. -/
theorem BeganBefore.liesOn (h : current.BeganBefore index) (hle : index ≤ length)
    (htoken : token ∈ current.tokens index) : token.span.LiesOn length := by
  cases current with
  | none => cases htoken
  | _ =>
    rw [List.mem_singleton.mp htoken]
    exact ⟨h, hle⟩

/-- What a character does to the open token gives tokens with characters, and leaves open a token
that has one. -/
theorem Steps.liesOn {c : Char} {next : List Token × OpenToken} (h : Steps index c current next)
    (hbegan : current.BeganBefore index) (hlt : index < length) :
    (∀ token ∈ next.1, token.span.LiesOn length) ∧ next.2.BeganBefore (index + 1) := by
  have hended (token : Token) (htoken : token ∈ current.tokens index) :
      token.span.LiesOn length := hbegan.liesOn (Nat.le_of_lt hlt) htoken
  have hsingle : (Span.single index).LiesOn length := ⟨Nat.lt_succ_self index, hlt⟩
  cases h with
  | ends => exact ⟨hended, trivial⟩
  | beginsNumber => exact ⟨hended, Nat.lt_succ_self index⟩
  | beginsWord => exact ⟨hended, Nat.lt_succ_self index⟩
  | number => exact ⟨fun _ ↦ nofun, hbegan.succ⟩
  | word => exact ⟨fun _ ↦ nofun, hbegan.succ⟩
  | stands =>
    refine ⟨fun token htoken ↦ ?_, trivial⟩
    rcases List.mem_append.mp htoken with htoken | htoken
    · exact hended token htoken
    · rw [List.mem_singleton.mp htoken]
      exact hsingle
  | extraPoint =>
    refine ⟨fun token htoken ↦ ?_, trivial⟩
    rw [List.mem_singleton.mp htoken]
    exact hsingle

end OpenToken

namespace Token

/-- The tokens that are scanned from a position on lie on the line. -/
theorem liesOn_of_mem_scan {voc : Vocabulary} {token : Token} (line : List Char) :
    ∀ {index : Nat} {current : OpenToken}, current.BeganBefore index →
      token ∈ scan voc index current line → token.span.LiesOn (index + line.length) := by
  induction line with
  | nil => exact fun hbegan htoken ↦ hbegan.liesOn (Nat.le_refl _) htoken
  | cons c line ih =>
    intro index current hbegan htoken
    have hlt : index < index + (c :: line).length := Nat.lt_add_of_pos_right (Nat.succ_pos _)
    have hsteps := (OpenToken.steps_step voc index c current).liesOn hbegan hlt
    rcases List.mem_append.mp htoken with htoken | htoken
    · exact hsteps.1 token htoken
    · have hrest := ih hsteps.2 htoken
      rwa [Nat.add_assoc, Nat.add_comm 1] at hrest

/-- The tokens of a line lie on it. -/
theorem liesOn_of_mem_ofLine {voc : Vocabulary} {line : Line} {token : Token}
    (htoken : token ∈ ofLine voc line) : token.span.LiesOn line.length := by
  have hbegan : OpenToken.none.BeganBefore 0 := trivial
  have hlies := liesOn_of_mem_scan line hbegan htoken
  rwa [Nat.zero_add] at hlies

end Token

end Reckoner
