import Reckoner.Expr.OfLine

/-!
# What a line asks of a vocabulary

A line asks its vocabulary which operators its characters and its words are, and which operators
join neighbours. Two vocabularies that answer these questions alike cut the line into the same
tokens, give these the same meanings, and so read the same expression or find the same fault.
-/

namespace Reckoner

/-- Two vocabularies answer alike what a line asks. -/
structure Vocabulary.AgreeOn (line : Line) (voc' voc : Vocabulary) : Prop where
  sign?_eq : ∀ c ∈ line, voc'.sign? c = voc.sign? c
  named?_eq : ∀ token ∈ Token.ofLine voc line, ∀ word, token.kind = .word word →
    voc'.named? word = voc.named? word
  addition_eq : voc'.addition = voc.addition
  multiplication_eq : voc'.multiplication = voc.multiplication

variable {voc voc' : Vocabulary} {scope scope' : Scope} {line : Line}

/-- Where the characters are the same operators, they make up the same tokens. -/
theorem Token.scan_congr {rest : List Char} (hsigns : ∀ c ∈ rest, voc'.sign? c = voc.sign? c)
    (index : Nat) (current : OpenToken) :
    scan voc' index current rest = scan voc index current rest := by
  induction rest generalizing index current with
  | nil => rfl
  | cons c rest ih =>
    have huse : CharUse.of voc' c = CharUse.of voc c := by
      rw [CharUse.of, CharUse.of, hsigns c List.mem_cons_self]
    have hstep : current.step voc' index c = current.step voc index c := by
      rw [OpenToken.step.eq_def, OpenToken.step.eq_def, huse]
    rw [scan, scan, hstep, ih fun c' hc' ↦ hsigns c' (List.mem_cons_of_mem c hc')]

/-- Tokens that mean the same are read the same, where stacks take items the same way. -/
theorem Stacks.read_congr {limit : Option Nat} {tokens : List Token}
    (hstep : ∀ (s : Stacks) (item : Item) (span : Span),
      s.step voc' limit item span = s.step voc limit item span)
    (hitem : ∀ token ∈ tokens, token.item voc' scope' = token.item voc scope) (s : Stacks) :
    s.read voc' scope' limit tokens = s.read voc scope limit tokens := by
  induction tokens generalizing s with
  | nil => rfl
  | cons token rest ih =>
    simp only [read, hstep, hitem token List.mem_cons_self,
      ih fun other hother ↦ hitem other (List.mem_cons_of_mem token hother)]

namespace Vocabulary.AgreeOn

/-- The line has the same tokens. -/
theorem ofLine_eq (h : AgreeOn line voc' voc) : Token.ofLine voc' line = Token.ofLine voc line :=
  Token.scan_congr h.sign?_eq 0 .none

/-- A token of the line has the same meaning. -/
theorem item_eq (h : AgreeOn line voc' voc) {token : Token}
    (htoken : token ∈ Token.ofLine voc line) :
    token.item voc' scope = token.item voc scope := by
  rw [Token.item.eq_def, Token.item.eq_def]
  split
  case h_2 word hkind => rw [h.named?_eq token htoken word hkind]
  all_goals rfl

/-- The stacks take an item alike. -/
theorem step_eq (h : AgreeOn line voc' voc) (limit : Option Nat) (s : Stacks) (item : Item)
    (span : Span) : s.step voc' limit item span = s.step voc limit item span := by
  match item with
  | .number _ | .closing | .operator (.between _) => rfl
  | .value _ | .opening => simp only [Stacks.step, h.multiplication_eq]
  | .operator (.beside op) =>
    have hconnector : voc'.connectorFor op = voc.connectorFor op := by
      rw [connectorFor, connectorFor, h.addition_eq, h.multiplication_eq]
    simp only [Stacks.step, hconnector]

/-- The line is read alike. -/
theorem parseWithin_eq (h : AgreeOn line voc' voc) (limit : Option Nat) (scope : Scope) :
    voc'.parseWithin limit scope line = voc.parseWithin limit scope line := by
  rw [parseWithin, parseWithin, h.ofLine_eq,
    Stacks.read_congr (h.step_eq limit) fun _ htoken ↦ h.item_eq htoken]

/-- The line has the same expression and the same value, or the same faults. -/
theorem parse_eq_and_calculate_eq (h : AgreeOn line voc' voc) (scope : Scope) :
    voc'.parse scope line = voc.parse scope line ∧
      voc'.calculate scope line = voc.calculate scope line := by
  have hparse : voc'.parse scope line = voc.parse scope line :=
    h.parseWithin_eq (some heightLimit) scope
  exact ⟨hparse, by rw [calculate, calculate, hparse]⟩

end Vocabulary.AgreeOn

end Reckoner
