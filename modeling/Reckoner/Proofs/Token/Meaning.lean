import Reckoner.Proofs.Token.CharUse
import Reckoner.Proofs.Vocabulary.Lookup
import Reckoner.Token.Item

/-!
# What the tokens of a line mean

A token that means an operator means one of the vocabulary it was scanned with.
-/

namespace Reckoner

/-- If the item is an operator, it is one of a vocabulary. -/
def Item.IsOf (voc : Vocabulary) : Item → Prop
  | .operator op => op.IsOf voc
  | _ => True

section

variable {voc : Vocabulary} {scope : Scope} {op : Operator} {token : Token} {index : Nat}

/-- The token that is open is no sign. -/
theorem OpenToken.kind_ne_sign {current : OpenToken} (htoken : token ∈ current.tokens index)
    (op : Operator) : token.kind ≠ .sign op := by
  cases current with
  | none => cases htoken
  | _ =>
    rw [List.mem_singleton.mp htoken]
    exact TokenKind.noConfusion

/-- A sign is what the character that it consists of stands for. -/
theorem OpenToken.sign?_of_mem_step {current : OpenToken} {c : Char}
    (htoken : token ∈ (current.step voc index c).1) (hkind : token.kind = .sign op) :
    voc.sign? c = some op := by
  have hended (h : token ∈ current.tokens index) : voc.sign? c = some op :=
    absurd hkind (kind_ne_sign h op)
  have hstands {kind : TokenKind}
      (h : token ∈ current.tokens index ++ [⟨kind, .single index⟩]) : kind = .sign op := by
    rcases List.mem_append.mp h with h | h
    · exact absurd hkind (kind_ne_sign h op)
    · rw [List.mem_singleton.mp h] at hkind
      exact hkind
  rw [step.eq_def] at htoken
  cases huse : CharUse.of voc c with
  | sign op' =>
    rw [huse] at htoken
    cases hstands htoken
    cases CharUse.of_eq_iff.mp huse with
    | sign h => exact h
  | opening => exact TokenKind.noConfusion (hstands (by rwa [huse] at htoken))
  | closing => exact TokenKind.noConfusion (hstands (by rwa [huse] at htoken))
  | blank => exact hended (by rwa [huse] at htoken)
  | point =>
    rw [huse] at htoken
    cases current with
    | number start text =>
      dsimp only at htoken
      split at htoken
      · rw [List.mem_singleton.mp htoken] at hkind
        cases hkind
      · cases htoken
    | _ => exact hended htoken
  | digit =>
    rw [huse] at htoken
    cases current with
    | number => cases htoken
    | _ => exact hended htoken
  | comma =>
    rw [huse] at htoken
    cases current <;> cases htoken
  | letter =>
    rw [huse] at htoken
    cases current with
    | word => cases htoken
    | _ => exact hended htoken

/-- A sign on a line is an operator of the vocabulary. -/
theorem Token.isOf_of_mem_scan (line : List Char) :
    ∀ {index : Nat} {current : OpenToken}, token ∈ scan voc index current line →
      token.kind = .sign op → op.IsOf voc := by
  induction line with
  | nil => exact fun htoken hkind ↦ absurd hkind (OpenToken.kind_ne_sign htoken op)
  | cons c line ih =>
    intro index current htoken hkind
    rcases List.mem_append.mp htoken with htoken | htoken
    · exact Vocabulary.isOf_of_sign? (OpenToken.sign?_of_mem_step htoken hkind)
    · exact ih htoken hkind

/-- An operator that a token of a line means is one of the vocabulary. -/
theorem Token.isOf_of_item {line : Line} {item : Item} (htoken : token ∈ ofLine voc line)
    (hitem : token.item voc scope = .ok item) : item.IsOf voc := by
  rw [Token.item.eq_def] at hitem
  split at hitem
  · split at hitem <;> cases hitem
    trivial
  · split at hitem <;> cases hitem
    · rename_i hnamed
      exact Vocabulary.isOf_of_named? hnamed
    · trivial
  · rename_i hkind
    cases hitem
    exact isOf_of_mem_scan line htoken hkind
  all_goals cases hitem
  all_goals trivial

/-- A token without a meaning is at fault itself. -/
theorem Token.span_eq_of_item {fault : Located ReadingFault}
    (h : token.item voc scope = .error fault) : fault.span = token.span := by
  rw [Token.item.eq_def] at h
  split at h
  · split at h <;> cases h
    rfl
  · split at h <;> cases h
    rfl
  all_goals cases h
  rfl

end

end Reckoner
