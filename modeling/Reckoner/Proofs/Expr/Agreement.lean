import Reckoner.Proofs.Expr.Height
import Reckoner.Proofs.Expr.Simulation
import Reckoner.Proofs.Token.Lexemes
import Reckoner.Proofs.Token.Order

/-!
# A line is read as it is read by descent

Token after token the stacks follow the reader by descent, and so the expression on a line is the
one that is read by descent, unless it is too high.
-/

namespace Reckoner

open Descent

section

variable {voc : Vocabulary} {scope : Scope} {s s' : Stacks} {stop : Nat} {items : List Lexeme}
  {token : Token} {tokens rest : List Token} {item : Item} {span : Span} {result : Option Expr}

/-! ## The phase of the stacks -/

/-- The phase of what was read of a line. -/
def Stacks.phase (s : Stacks) : Phase := ⟨s.layer, decide (s.last = .value)⟩

/-- The layer of stacks is the number of brackets among the frames. -/
theorem Stands.brackets_eq {frames : List Frame} {waiting : List Waiting}
    {done : List Completed} {layer : Nat} (h : Stands frames waiting done layer stop) :
    brackets frames = layer := by
  induction h with
  | nil => rfl
  | bracket _ ih => exact congrArg Nat.succ ih
  | push _ hentry ih => cases hentry <;> exact ih

/-- The line has an expression if the phase of the stacks accepts what is left of it. -/
theorem Reads.isSome_eq (h : Reads voc s stop items result) :
    result.isSome = s.phase.accepts (items.map Lexeme.terminal) := by
  cases h with
  | awaiting h =>
    obtain ⟨_, _, hstands⟩ := h.stands
    rw [(isSome_eq_accepts items).1, Stacks.phase, hstands.brackets_eq, decide_eq_false h.last_ne]
  | holding h =>
    cases h with
    | intro hstands _ _ =>
      rw [(isSome_eq_accepts items).2, Stacks.phase, hstands.brackets_eq, decide_eq_true rfl]

/-! ## Reading tokens -/

/-- Each lexeme leads on as the reader by descent goes on. -/
theorem Reads.step (h : Reads voc s stop (⟨item, span⟩ :: items) result)
    (hstop : stop ≤ span.start) (hspan : span.start ≤ span.stop) :
    LeadsTo voc span.stop items result (s.step voc none item span) := by
  cases h with
  | awaiting h => exact h.step hstop hspan
  | holding h => exact h.step hstop hspan

/-- A closing bracket that is found before the number or word in front of it closes nothing. -/
theorem Reads.eq_none_of_bracketFault? {fault : Located ReadingFault}
    (h : Reads voc s stop (⟨item, token.span⟩ :: items) result)
    (hitems : rest.mapM (Token.lexeme voc scope) = .ok items)
    (hfault : bracketFault? s.layer token rest = some fault) : result = none := by
  rw [bracketFault?.eq_def] at hfault
  split at hfault
  · rename_i span rest
    obtain ⟨⟨hlayer, -⟩, -⟩ := Option.ite_none_right_eq_some.mp hfault
    obtain ⟨_, items, hclosing, -, rfl⟩ := Token.mapM_lexeme_cons_eq_ok_iff.mp hitems
    cases hclosing
    have hphase := h.isSome_eq
    rw [Stacks.phase, hlayer] at hphase
    exact Option.not_isSome_iff_eq_none.mp <| Bool.eq_false_iff.mp <|
      hphase.trans (Phase.accepts_closing_second _ _ _)
  · cases hfault

/-- All tokens lead on as the reader by descent goes on. -/
theorem Reads.read (tokens : List Token) :
    ∀ {s : Stacks} {stop : Nat} {items : List Lexeme}, Reads voc s stop items result →
      Token.Ordered stop tokens → tokens.mapM (Token.lexeme voc scope) = .ok items →
      ∃ stop', LeadsTo voc stop' [] result (s.read voc scope none tokens) := by
  induction tokens with
  | nil =>
    intro s stop items h _ hitems
    cases hitems
    exact ⟨stop, h⟩
  | cons token rest ih =>
    intro s stop items h hordered hitems
    obtain ⟨item, items, hitem, hrest, rfl⟩ := Token.mapM_lexeme_cons_eq_ok_iff.mp hitems
    cases hordered with
    | cons hstop hspan hordered =>
      simp only [Stacks.read]
      cases hfault : bracketFault? s.layer token rest with
      | some fault => exact ⟨stop, h.eq_none_of_bracketFault? hrest hfault⟩
      | none =>
        have hstep := h.step hstop hspan
        simp only [hitem, ok_bind]
        cases hnext : s.step voc none item token.span with
        | error fault =>
          rw [hnext] at hstep
          exact ⟨stop, hstep⟩
        | ok s' =>
          rw [hnext] at hstep
          exact ih hstep hordered hrest

/-- Tokens that the stacks can read have a meaning. -/
theorem Stacks.exists_lexemes_of_read {limit : Option Nat} (tokens : List Token) :
    ∀ {s s' : Stacks}, s.read voc scope limit tokens = .ok s' →
      ∃ items, tokens.mapM (Token.lexeme voc scope) = .ok items := by
  induction tokens with
  | nil => exact fun _ ↦ ⟨[], rfl⟩
  | cons token rest ih =>
    intro s s' hread
    rw [Stacks.read] at hread
    split at hread
    · cases hread
    · obtain ⟨item, hitem, hread⟩ := bind_eq_ok_iff.mp hread
      obtain ⟨s₁, -, hread⟩ := bind_eq_ok_iff.mp hread
      obtain ⟨items, hitems⟩ := ih hread
      exact ⟨_, Token.mapM_lexeme_cons_eq_ok_iff.mpr ⟨item, items, hitem, hitems, rfl⟩⟩

/-! ## The end of a line -/

/-- At the end of a line the stacks hold what is read by descent. -/
theorem Reads.finish (h : Reads voc s stop [] result) (length : Nat) :
    (s.finish none length).toOption = result := by
  cases h with
  | awaiting h =>
    have hlast := h.last_ne
    rw [awaiting_eq_none_of_readPrimary readPrimary_nil, Stacks.finish]
    split
    case h_5 => contradiction
    all_goals rfl
  | holding h =>
    rw [holding_nil]
    cases h with
    | intro hstands hlingers hvalue =>
      obtain ⟨hrest, hlies⟩ := hlingers.applyDue (fun _ _ ↦ rfl) hvalue
      simp only [Stacks.finish, hrest, hstands.applyAll hlies]
      rfl

end

/-- Before anything is read the stacks stand for a reader without frames. -/
theorem Reads.start (voc : Vocabulary) (items : List Lexeme) :
    Reads voc Stacks.start 0 items (Descent.awaiting voc [] items) := by
  have hstands : Stands [] (Stacks.start.ahead items) [] 0 0 := by
    rw [Stacks.ahead_of_last fun _ ↦ Last.noConfusion]
    exact .nil
  exact .awaiting ⟨Last.noConfusion, 0, Nat.le_refl 0, hstands⟩

namespace Vocabulary

/-- Reading by descent, as a reader without frames in front of an operand. -/
theorem descend_of_lexemes {voc : Vocabulary} {scope : Scope} {line : Line} {items : List Lexeme}
    (hitems : (Token.ofLine voc line).mapM (Token.lexeme voc scope) = .ok items) :
    voc.descend scope line = awaiting voc [] items := by
  rw [descend, hitems, awaiting]
  change _ = resume voc [] (readOperand voc none items)
  dsimp only
  rcases readOperand voc none items with _ | ⟨expr, _ | ⟨lexeme, rest⟩⟩ <;> rfl

/-- Without a limit the expression on a line is the one that is read by descent. -/
theorem toOption_parseWithin_none (voc : Vocabulary) (scope : Scope) (line : Line) :
    (voc.parseWithin none scope line).toOption = voc.descend scope line := by
  cases hitems : (Token.ofLine voc line).mapM (Token.lexeme voc scope) with
  | error fault =>
    have hdescend : voc.descend scope line = none := by rw [descend, hitems]
    rw [hdescend, parseWithin]
    cases hread : Stacks.start.read voc scope none (Token.ofLine voc line) with
    | error fault => rfl
    | ok s =>
      obtain ⟨items, hok⟩ := Stacks.exists_lexemes_of_read _ hread
      rw [hitems] at hok
      cases hok
  | ok items =>
    rw [descend_of_lexemes hitems, parseWithin]
    obtain ⟨stop, hleads⟩ :=
      (Reads.start voc items).read _ (Token.ordered_ofLine voc line) hitems
    cases hread : Stacks.start.read voc scope none (Token.ofLine voc line) with
    | error fault =>
      rw [hread] at hleads
      exact hleads.symm
    | ok s =>
      rw [hread] at hleads
      exact hleads.finish line.length

/-- The expression on a line is what its lexemes come to for a reader without frames, if it is not
too high. -/
theorem parse_eq_ok_iff_awaiting {voc : Vocabulary} {scope : Scope} {line : Line} {expr : Expr} :
    voc.parse scope line = .ok expr ↔
      (∃ items, (Token.ofLine voc line).mapM (Token.lexeme voc scope) = .ok items ∧
        awaiting voc [] items = some expr) ∧ expr.height ≤ heightLimit := by
  have hlimit : 0 < heightLimit := by decide
  rw [parse, voc.parseWithin_eq_ok_iff scope line hlimit, ← toOption_eq_some_iff,
    toOption_parseWithin_none]
  refine and_congr_left fun _ ↦ ?_
  cases hitems : (Token.ofLine voc line).mapM (Token.lexeme voc scope) with
  | error fault =>
    rw [descend, hitems]
    simp
  | ok items => simp [descend_of_lexemes hitems]

/-- The expression on a line is what the lexemes of its characters come to, unless it is too
high. -/
theorem parse_eq_ok_iff_lexes {voc : Vocabulary} {scope : Scope} {line : Line} {expr : Expr} :
    voc.parse scope line = .ok expr ↔
      (∃ lexemes, voc.Lexes scope 0 line lexemes ∧ awaiting voc [] lexemes = some expr) ∧
        expr.height ≤ heightLimit := by
  simp only [parse_eq_ok_iff_awaiting, lexes_iff]
  rfl

/-- What the lexemes of a line come to is the expression on it, unless it is too high. -/
theorem Lexes.parse_eq_ok_iff {voc : Vocabulary} {scope : Scope} {line : Line}
    {lexemes : List Lexeme} {expr : Expr} (h : voc.Lexes scope 0 line lexemes)
    (hresult : awaiting voc [] lexemes = some expr) :
    voc.parse scope line = .ok expr ↔ expr.height ≤ heightLimit := by
  rw [parse_eq_ok_iff_lexes]
  exact and_iff_right ⟨lexemes, h, hresult⟩

/-- The expression on a line is the one that is read by descent, if it is not too high, and there is
no other. -/
theorem parse_eq_ok_iff_descend (voc : Vocabulary) (scope : Scope) (line : Line) (expr : Expr) :
    voc.parse scope line = .ok expr ↔
      voc.descend scope line = some expr ∧ expr.height ≤ heightLimit := by
  have hunlimited : voc.parseWithin none scope line = .ok expr ↔
      voc.descend scope line = some expr := by
    rw [← toOption_parseWithin_none]
    cases voc.parseWithin none scope line <;> simp [Except.toOption]
  have hlimit : 0 < heightLimit := by decide
  rw [parse, voc.parseWithin_eq_ok_iff scope line hlimit, hunlimited]

end Vocabulary

end Reckoner
