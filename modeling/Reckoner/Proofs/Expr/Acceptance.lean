import Reckoner.Proofs.Expr.Agreement
import Reckoner.Proofs.Expr.Grammar
import Reckoner.Proofs.Token.Spelling

/-!
# Which lines have an expression

A line has an expression exactly if it spells what the grammar derives. The grammar knows nothing of
precedence, of the stacks or of the tokens.
-/

namespace Reckoner

open Descent

/-- The characters of a line spell a derivation, once the brackets that are open at its end are
closed. -/
def Vocabulary.Grammatical (voc : Vocabulary) (scope : Scope) (line : Line) : Prop :=
  ∃ terminals count, voc.Spells scope line terminals ∧
    Derives .expr (terminals ++ List.replicate count .closing)

namespace Vocabulary

variable {voc : Vocabulary} {scope : Scope} {line : Line}

/-- A line is read by descent if its tokens have meanings that are accepted. -/
theorem isSome_descend_iff : (voc.descend scope line).isSome = true ↔
    ∃ terminals, Token.Mean voc scope (Token.ofLine voc line) terminals ∧
      Phase.start.accepts terminals = true := by
  constructor
  · intro hsome
    cases hitems : (Token.ofLine voc line).mapM (Token.lexeme voc scope) with
    | error fault =>
      rw [descend, hitems] at hsome
      cases hsome
    | ok items =>
      rw [descend_of_lexemes hitems, (isSome_eq_accepts items).1] at hsome
      exact ⟨_, ⟨items, hitems, rfl⟩, hsome⟩
  · rintro ⟨_, ⟨items, hitems, rfl⟩, haccepts⟩
    rw [descend_of_lexemes hitems, (isSome_eq_accepts items).1]
    exact haccepts

/-- Without a limit a line has an expression if it is grammatical. -/
theorem exists_parseWithin_none_iff :
    (∃ expr, voc.parseWithin none scope line = .ok expr) ↔ voc.Grammatical scope line := by
  calc (∃ expr, voc.parseWithin none scope line = .ok expr)
    _ ↔ (voc.descend scope line).isSome = true := by
      rw [← toOption_parseWithin_none]
      cases voc.parseWithin none scope line <;> simp [Except.toOption]
    _ ↔ ∃ terminals, Token.Mean voc scope (Token.ofLine voc line) terminals ∧
        Phase.start.accepts terminals = true := isSome_descend_iff
    _ ↔ voc.Grammatical scope line := by
      simp only [Grammatical, spells_iff_mean, Phase.accepts_start_iff, exists_and_left]

/-- A line has an expression if and only if it is grammatical, if heights are not limited; and a
limit only refuses the grammatical lines whose expression is too high. -/
theorem parse_accepts_iff_grammatical (voc : Vocabulary) (scope : Scope) (line : Line) :
    ((∃ expr, voc.parseWithin none scope line = .ok expr) ↔ voc.Grammatical scope line) ∧
      ((∃ expr, voc.parse scope line = .ok expr) ↔ voc.Grammatical scope line ∧
        ∀ expr, voc.parseWithin none scope line = .ok expr → expr.height ≤ heightLimit) := by
  refine ⟨exists_parseWithin_none_iff, ?_⟩
  have hlimit : 0 < heightLimit := by decide
  simp only [parse, parseWithin_eq_ok_iff voc scope line hlimit, ← exists_parseWithin_none_iff]
  constructor
  · rintro ⟨expr, hparse, hheight⟩
    refine ⟨⟨expr, hparse⟩, fun other hother ↦ ?_⟩
    rw [hparse] at hother
    cases hother
    exact hheight
  · rintro ⟨⟨expr, hparse⟩, hheight⟩
    exact ⟨expr, hparse, hheight expr hparse⟩

end Vocabulary

end Reckoner
