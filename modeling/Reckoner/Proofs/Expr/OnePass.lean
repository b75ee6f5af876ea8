import Reckoner.Expr.OfLine
import Reckoner.Proofs.Fallible
import Reckoner.Proofs.Token.Cut

/-!
# Reading a line character by character

The tokens of a line need not be known before the first of them is read. Each character goes on with
the token that is open, or ends it, and what has ended can be read at once. What a line comes to in
this way is the same, since the only fault that is found early, a closing bracket which closes
nothing, stands directly behind the number or word that it ends, and so ends it in one step.
-/

namespace Reckoner

/-- What has been read behind some characters of a line, and the token that is open there. -/
structure Progress where
  held : Stacks
  current : OpenToken

namespace Progress

/-- Nothing has been read. -/
def start : Progress := ⟨.start, .none⟩

/-- Read one character more: the tokens that it ends, and itself if it is one. -/
def step (voc : Vocabulary) (scope : Scope) (limit : Option Nat) (index : Nat) (c : Char)
    (progress : Progress) : Building Progress := do
  let next := progress.current.step voc index c
  let held ← progress.held.read voc scope limit next.1
  return ⟨held, next.2⟩

/-- Read the characters from a position on. -/
def run (voc : Vocabulary) (scope : Scope) (limit : Option Nat) :
    Nat → List Char → Progress → Building Progress
  | _, [], progress => .ok progress
  | index, c :: rest, progress => do
    let progress ← progress.step voc scope limit index c
    progress.run voc scope limit (index + 1) rest

/-- The expression at the end of a line of so many characters, where the open token ends. -/
def finish (voc : Vocabulary) (scope : Scope) (limit : Option Nat) (length : Nat)
    (progress : Progress) : Building Expr := do
  let s ← progress.held.read voc scope limit (progress.current.tokens length)
  s.finish limit length

end Progress

variable {voc : Vocabulary} {scope : Scope} {limit : Option Nat} {token : Token}
  {tokens rest : List Token}

/-! ## Tokens in two parts -/

/-- No closing bracket of the second part stands directly behind a number or word of the first. -/
def ClosesApart (tokens rest : List Token) : Prop :=
  ∀ token ∈ tokens, token.isText = true → ∀ other ∈ rest, other.kind = .closing →
    other.span.start ≠ token.span.stop

theorem bracketFault?_append (layer : Nat)
    (h : token.isText = true → ∀ other ∈ rest, other.kind = .closing →
      other.span.start ≠ token.span.stop) :
    bracketFault? layer token (tokens ++ rest) = bracketFault? layer token tokens := by
  cases tokens with
  | cons first tokens =>
    obtain ⟨kind, span⟩ := first
    cases kind <;> rfl
  | nil =>
    rw [List.nil_append, bracketFault?.eq_def]
    split
    · rename_i span others
      exact if_neg fun ⟨_, htext, hstart⟩ ↦ h htext _ List.mem_cons_self rfl hstart
    · rfl

/-- Tokens can be read in two parts. -/
theorem Stacks.read_append (s : Stacks) (h : ClosesApart tokens rest) :
    s.read voc scope limit (tokens ++ rest) =
      s.read voc scope limit tokens >>= fun s' ↦ s'.read voc scope limit rest := by
  induction tokens generalizing s with
  | nil => rfl
  | cons token tokens ih =>
    obtain ⟨htoken, htokens⟩ := List.forall_mem_cons.mp h
    rw [List.cons_append, read, read, bracketFault?_append s.layer htoken]
    cases bracketFault? s.layer token tokens with
    | some fault => rfl
    | none =>
      cases token.item voc scope with
      | error fault => rfl
      | ok item =>
        cases hstep : s.step voc limit item token.span with
        | error fault => simp only [ok_bind, hstep, error_bind]
        | ok s' => simp only [ok_bind, hstep, ih s' htokens]

/-! ## Characters one after the other -/

/-- What a character ends is apart from what is found behind it. -/
theorem closesApart_step (voc : Vocabulary) (index : Nat) (c : Char) (current : OpenToken)
    (line : List Char) : ClosesApart (current.step voc index c).1
      (Token.scan voc (index + 1) (current.step voc index c).2 line) := by
  intro token htoken htext other hother hclosing
  have hstop : token.span.stop = index := by
    rcases (OpenToken.steps_step voc index c current).isText_or_eq_single htoken with
      ⟨-, hstop⟩ | ⟨hno, -⟩
    · exact hstop
    · rw [htext] at hno
      cases hno
  have hstart : index + 1 ≤ other.span.start := by
    rcases Token.isText_or_single line hother with hno | ⟨place, hle, hspan⟩
    · rw [Token.isText, hclosing] at hno
      cases hno
    · rwa [hspan]
  omega

theorem closesApart_scanned (voc : Vocabulary) (index : Nat) (c : Char) (current : OpenToken)
    (line : List Char) : ClosesApart (current.step voc index c).1
      (Token.scanned voc (index + 1) (current.step voc index c).2 line).1 := by
  intro token htoken htext other hother
  refine closesApart_step voc index c current line token htoken htext other ?_
  rw [Token.scan_eq_scanned]
  exact List.mem_append_left _ hother

namespace Progress

/-- Reading the tokens of some characters is reading the characters and then what is still open. -/
theorem read_scan (line : List Char) (index : Nat) (progress : Progress) :
    progress.held.read voc scope limit (Token.scan voc index progress.current line) =
      progress.run voc scope limit index line >>= fun progress ↦
        progress.held.read voc scope limit (progress.current.tokens (index + line.length)) := by
  induction line generalizing index progress with
  | nil => rfl
  | cons c line ih =>
    rw [Token.scan, Stacks.read_append _ (closesApart_step voc index c progress.current line), run,
      step, List.length_cons, Nat.add_comm line.length, ← Nat.add_assoc]
    cases progress.held.read voc scope limit (progress.current.step voc index c).1 with
    | error fault => rfl
    | ok s => exact ih (index + 1) ⟨s, (progress.current.step voc index c).2⟩

/-- Behind some characters the tokens that have ended were read. -/
theorem of_run_eq_ok {line : List Char} {index : Nat} {progress progress' : Progress}
    (h : progress.run voc scope limit index line = .ok progress') :
    progress.held.read voc scope limit (Token.scanned voc index progress.current line).1 =
        .ok progress'.held ∧
      progress'.current = (Token.scanned voc index progress.current line).2 := by
  induction line generalizing index progress with
  | nil =>
    cases h
    exact ⟨rfl, rfl⟩
  | cons c line ih =>
    obtain ⟨next, hstep, h⟩ := bind_eq_ok_iff.mp h
    obtain ⟨s, hread, hnext⟩ := bind_eq_ok_iff.mp hstep
    cases hnext
    obtain ⟨hrest, hcurrent⟩ := ih h
    refine ⟨?_, hcurrent⟩
    rw [Token.scanned]
    dsimp only
    rw [Stacks.read_append _ (closesApart_scanned voc index c progress.current line), hread,
      ok_bind]
    exact hrest

end Progress

/-- The expression on a line can be read character by character. -/
theorem Vocabulary.parseWithin_eq_run (voc : Vocabulary) (scope : Scope) (limit : Option Nat)
    (line : Line) :
    voc.parseWithin limit scope line = Progress.start.run voc scope limit 0 line >>=
      Progress.finish voc scope limit line.length := by
  have hread : Stacks.start.read voc scope limit (Token.ofLine voc line) =
      Progress.start.run voc scope limit 0 line >>= fun progress ↦
        progress.held.read voc scope limit (progress.current.tokens (0 + line.length)) :=
    Progress.read_scan line 0 .start
  rw [parseWithin, hread, Nat.zero_add]
  cases Progress.start.run voc scope limit 0 line <;> rfl

end Reckoner
