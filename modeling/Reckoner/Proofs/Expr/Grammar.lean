import Reckoner.Proofs.Expr.Phase

/-!
# The grammar of a line

The lines that the phases accept are those of a grammar, with so many closing brackets put behind
them as are still open.

A derivation is followed by the phases piece by piece, whatever comes behind the piece. The other
way round each terminal that may come next keeps true what the phase says of the terminals in front
of it: between brackets they lack an operand to be an expression, or they lack nothing.
-/

namespace Reckoner

/-- The categories of the grammar. -/
inductive Category where
  | primary
  | operand
  | expr
deriving DecidableEq, Repr

/-- What can be written in a category. -/
inductive Derives : Category → List Terminal → Prop
  | number : Derives .primary [.number]
  | value : Derives .primary [.value]
  | bracket {inner : List Terminal} (h : Derives .expr inner) :
    Derives .primary (.opening :: (inner ++ [.closing]))
  | operand {inner : List Terminal} (befores afters : Nat) (h : Derives .primary inner) :
    Derives .operand (List.replicate befores .before ++ (inner ++ List.replicate afters .after))
  | single {first : List Terminal} (h : Derives .operand first) : Derives .expr first
  | between {left right : List Terminal} (hleft : Derives .expr left)
    (hright : Derives .operand right) : Derives .expr (left ++ .between :: right)
  /-- An operand stands behind another without an operator between them, unless it begins with a
  number. -/
  | beside {left right : List Terminal} (hleft : Derives .expr left)
    (hright : Derives .operand right) (hnumber : right.head? ≠ some .number) :
    Derives .expr (left ++ right)

section

variable {category : Category} {terminals right : List Terminal} {phase : Phase}

/-! ## Derivations are accepted -/

/-- What a derivation can begin with. -/
theorem Derives.exists_cons (h : Derives category terminals) :
    ∃ terminal rest, terminals = terminal :: rest ∧
      (terminal = .number ∨ terminal = .value ∨ terminal = .before ∨ terminal = .opening) := by
  induction h with
  | number => exact ⟨_, _, rfl, .inl rfl⟩
  | value => exact ⟨_, _, rfl, .inr (.inl rfl)⟩
  | bracket => exact ⟨_, _, rfl, .inr (.inr (.inr rfl))⟩
  | operand befores afters _ ih =>
    cases befores with
    | zero =>
      obtain ⟨terminal, rest, rfl, hterminal⟩ := ih
      exact ⟨terminal, _, rfl, hterminal⟩
    | succ befores => exact ⟨_, _, rfl, .inr (.inr (.inl rfl))⟩
  | single _ ih => exact ih
  | between _ _ ih _ =>
    obtain ⟨terminal, rest, rfl, hterminal⟩ := ih
    exact ⟨terminal, _, rfl, hterminal⟩
  | beside _ _ _ ih _ =>
    obtain ⟨terminal, rest, rfl, hterminal⟩ := ih
    exact ⟨terminal, _, rfl, hterminal⟩

/-- Operators before an operand do not complete it. -/
theorem Phase.accepts_befores (count layer : Nat) (rest : List Terminal) :
    accepts ⟨layer, false⟩ (List.replicate count .before ++ rest) =
      accepts ⟨layer, false⟩ rest := by
  induction count with
  | zero => rfl
  | succ count ih => exact ih

/-- Operators after an operand leave it complete. -/
theorem Phase.accepts_afters (count layer : Nat) (rest : List Terminal) :
    accepts ⟨layer, true⟩ (List.replicate count .after ++ rest) = accepts ⟨layer, true⟩ rest := by
  induction count with
  | zero => rfl
  | succ count ih => exact ih

/-- An operand that does not begin with a number may follow a complete value. -/
theorem Derives.accepts_beside (h : Derives category right) (hnumber : right.head? ≠ some .number)
    (layer : Nat) (rest : List Terminal) :
    Phase.accepts ⟨layer, true⟩ (right ++ rest) = Phase.accepts ⟨layer, false⟩ (right ++ rest) := by
  obtain ⟨terminal, right, rfl, hbegins⟩ := h.exists_cons
  rcases hbegins with rfl | hjoins
  · exact absurd rfl hnumber
  · exact Phase.accepts_of_joins (right ++ rest) layer hjoins

/-- What is derived completes a value, whatever follows. -/
theorem Derives.accepts (h : Derives category terminals) (layer : Nat) (rest : List Terminal) :
    Phase.accepts ⟨layer, false⟩ (terminals ++ rest) = Phase.accepts ⟨layer, true⟩ rest := by
  induction h generalizing layer rest with
  | number => rfl
  | value => rfl
  | @bracket inner _ ih =>
    calc Phase.accepts ⟨layer, false⟩ (.opening :: (inner ++ [.closing]) ++ rest)
      _ = Phase.accepts ⟨layer + 1, false⟩ (inner ++ (.closing :: rest)) := by
        simp [Phase.accepts, Phase.next?]
      _ = Phase.accepts ⟨layer + 1, true⟩ (.closing :: rest) := ih _ _
      _ = Phase.accepts ⟨layer, true⟩ rest := rfl
  | operand befores afters _ ih =>
    rw [List.append_assoc, Phase.accepts_befores, List.append_assoc, ih, Phase.accepts_afters]
  | single _ ih => exact ih layer rest
  | between _ _ ihleft ihright =>
    rw [List.append_assoc, ihleft]
    exact ihright layer rest
  | beside _ hright hnumber ihleft ihright =>
    rw [List.append_assoc, ihleft, hright.accepts_beside hnumber, ihright]

/-- What is accepted with closing brackets behind it is accepted without them. -/
theorem Phase.accepts_of_closed {count : Nat}
    (h : phase.accepts (terminals ++ List.replicate count .closing) = true) :
    phase.accepts terminals = true := by
  induction terminals generalizing phase with
  | nil =>
    cases count with
    | zero => exact h
    | succ count =>
      match phase with
      | ⟨_, true⟩ => rfl
      | ⟨_, false⟩ =>
        rw [List.nil_append, List.replicate_succ, accepts] at h
        simp [next?] at h
  | cons terminal rest ih =>
    simp only [List.cons_append, accepts, Option.any_eq_true] at h ⊢
    obtain ⟨next, hnext, haccepts⟩ := h
    exact ⟨next, hnext, ih haccepts⟩

end

/-! ## What is accepted is derived -/

/-- Some terminals are an expression, and stay one when operators after a value are added. -/
def Complete (terminals : List Terminal) : Prop :=
  ∀ afters, Derives .expr (terminals ++ List.replicate afters .after)

/-- Some terminals lack an operand to be an expression. -/
def Lacking (terminals : List Terminal) : Prop :=
  ∀ right, Derives .operand right → Derives .expr (terminals ++ right)

/-- Some terminals are complete with an expression in brackets behind them. -/
def Opens (terminals : List Terminal) : Prop :=
  ∀ inner, Derives .expr inner → Complete (terminals ++ .opening :: (inner ++ [.closing]))

/-- What stands in front of the contents of the innermost bracket. -/
inductive Outer : Nat → List Terminal → Prop
  | nil : Outer 0 []
  | bracket {layer : Nat} {outer inner : List Terminal} (h : Outer layer outer)
    (hopens : Opens inner) : Outer (layer + 1) (outer ++ (inner ++ [.opening]))

/-- What the phase says of the terminals in front of it. -/
inductive Reached : Phase → List Terminal → Prop
  | lacking {layer : Nat} {outer inner : List Terminal} (houter : Outer layer outer)
    (hinner : Lacking inner) : Reached ⟨layer, false⟩ (outer ++ inner)
  | complete {layer : Nat} {outer inner : List Terminal} (houter : Outer layer outer)
    (hinner : Complete inner) : Reached ⟨layer, true⟩ (outer ++ inner)

section

variable {terminals right rest inner outer : List Terminal} {layer : Nat} {phase phase' : Phase}
  {terminal : Terminal}

theorem Lacking.nil : Lacking [] := fun _ ↦ .single

/-- A primary is an operand with any number of operators after it. -/
theorem Derives.primary_afters (h : Derives .primary inner) (afters : Nat) :
    Derives .operand (inner ++ List.replicate afters .after) := .operand 0 afters h

/-- One more operator before an operand. -/
theorem Derives.cons_before (h : Derives .operand right) : Derives .operand (.before :: right) := by
  cases h with
  | operand befores afters h => exact .operand (befores + 1) afters h

theorem Complete.derives (h : Complete terminals) : Derives .expr terminals := by
  simpa using h 0

/-- A primary is what is lacking. -/
theorem Lacking.primary (h : Lacking terminals) (hinner : Derives .primary inner) :
    Complete (terminals ++ inner) := by
  intro afters
  rw [List.append_assoc]
  exact h _ (hinner.primary_afters afters)

/-- An operator before the operand that is lacking. -/
theorem Lacking.before (h : Lacking terminals) : Lacking (terminals ++ [.before]) := by
  intro right hright
  rw [List.append_assoc]
  exact h _ hright.cons_before

theorem Lacking.opens (h : Lacking terminals) : Opens terminals :=
  fun _ hinner ↦ h.primary (.bracket hinner)

/-- An operator between two operands lacks the second one. -/
theorem Complete.between (h : Complete terminals) : Lacking (terminals ++ [.between]) := by
  intro right hright
  rw [List.append_assoc]
  exact .between h.derives hright

/-- An operator after a complete value. -/
theorem Complete.after (h : Complete terminals) : Complete (terminals ++ [.after]) := by
  intro afters
  rw [List.append_assoc]
  exact h (afters + 1)

/-- An operator before an operand that stands beside a complete value. -/
theorem Complete.before (h : Complete terminals) : Lacking (terminals ++ [.before]) := by
  intro right hright
  rw [List.append_assoc]
  exact .beside h.derives hright.cons_before (by simp)

/-- A primary that stands beside a complete value. -/
theorem Complete.primary (h : Complete terminals) (hinner : Derives .primary inner)
    (hnumber : inner.head? ≠ some .number) : Complete (terminals ++ inner) := by
  intro afters
  rw [List.append_assoc]
  refine .beside h.derives (hinner.primary_afters afters) ?_
  obtain ⟨terminal, rest, rfl, -⟩ := hinner.exists_cons
  exact hnumber

theorem Complete.opens (h : Complete terminals) : Opens terminals :=
  fun _ hinner ↦ h.primary (.bracket hinner) (by simp)

/-- An expression in the innermost bracket is one on the line when all brackets are closed. -/
theorem Outer.derives (h : Outer layer outer) :
    ∀ {inner}, Derives .expr inner →
      Derives .expr (outer ++ inner ++ List.replicate layer .closing) := by
  induction h with
  | nil =>
    intro inner hinner
    simpa using hinner
  | @bracket layer outer opened _ hopens ih =>
    intro inner hinner
    have hregroup : outer ++ (opened ++ [.opening]) ++ inner ++
        List.replicate (layer + 1) .closing =
      outer ++ (opened ++ .opening :: (inner ++ [.closing])) ++ List.replicate layer .closing := by
      simp [List.replicate_succ]
    rw [hregroup]
    exact ih (hopens inner hinner).derives

theorem Outer.reached_lacking (houter : Outer layer outer)
    (hinner : Lacking (inner ++ [terminal])) :
    Reached ⟨layer, false⟩ (outer ++ inner ++ [terminal]) := by
  rw [List.append_assoc]
  exact .lacking houter hinner

theorem Outer.reached_complete (houter : Outer layer outer)
    (hinner : Complete (inner ++ [terminal])) :
    Reached ⟨layer, true⟩ (outer ++ inner ++ [terminal]) := by
  rw [List.append_assoc]
  exact .complete houter hinner

/-- An opening bracket comes behind what it may follow. -/
theorem Outer.reached_opening (houter : Outer layer outer) (hopens : Opens inner) :
    Reached ⟨layer + 1, false⟩ (outer ++ inner ++ [.opening]) := by
  have hreached := Reached.lacking (houter.bracket hopens) .nil
  rwa [List.append_nil, ← List.append_assoc] at hreached

/-- A closing bracket completes what stands in front of the bracket that it closes. -/
theorem Outer.reached_closing (houter : Outer (layer + 1) outer) (hinner : Complete inner) :
    Reached ⟨layer, true⟩ (outer ++ inner ++ [.closing]) := by
  cases houter with
  | bracket houter hopens =>
    have hreached := Reached.complete houter (hopens inner hinner.derives)
    simpa using hreached

/-- What may come where an operand is lacking. -/
theorem Lacking.next (hinner : Lacking inner) (houter : Outer layer outer)
    (hnext : Phase.next? ⟨layer, false⟩ terminal = some phase') :
    Reached phase' (outer ++ inner ++ [terminal]) := by
  cases terminal with
  | number =>
    cases hnext
    exact houter.reached_complete (hinner.primary .number)
  | value =>
    cases hnext
    exact houter.reached_complete (hinner.primary .value)
  | before =>
    cases hnext
    exact houter.reached_lacking hinner.before
  | opening =>
    cases hnext
    exact houter.reached_opening hinner.opens
  | between => cases hnext
  | after => cases hnext
  | closing => cases layer <;> cases hnext

/-- What may come behind a complete value. -/
theorem Complete.next (hinner : Complete inner) (houter : Outer layer outer)
    (hnext : Phase.next? ⟨layer, true⟩ terminal = some phase') :
    Reached phase' (outer ++ inner ++ [terminal]) := by
  cases terminal with
  | number => cases hnext
  | value =>
    cases hnext
    exact houter.reached_complete (hinner.primary .value (by simp))
  | before =>
    cases hnext
    exact houter.reached_lacking hinner.before
  | between =>
    cases hnext
    exact houter.reached_lacking hinner.between
  | after =>
    cases hnext
    exact houter.reached_complete hinner.after
  | opening =>
    cases hnext
    exact houter.reached_opening hinner.opens
  | closing =>
    cases layer with
    | zero => cases hnext
    | succ layer =>
      cases hnext
      exact houter.reached_closing hinner

/-- Each terminal that may come next keeps what the phase says. -/
theorem Reached.next (h : Reached phase terminals) (hnext : phase.next? terminal = some phase') :
    Reached phase' (terminals ++ [terminal]) := by
  cases h with
  | lacking houter hinner => exact hinner.next houter hnext
  | complete houter hinner => exact hinner.next houter hnext

/-- What is accepted in a phase completes what was read before it. -/
theorem Reached.derives_of_accepts (h : Reached phase terminals)
    (haccepts : phase.accepts rest = true) :
    ∃ count, Derives .expr (terminals ++ rest ++ List.replicate count .closing) := by
  induction rest generalizing phase terminals with
  | nil =>
    cases h with
    | lacking => cases haccepts
    | @complete layer outer inner houter hinner =>
      refine ⟨layer, ?_⟩
      rw [List.append_nil]
      exact houter.derives hinner.derives
  | cons terminal rest ih =>
    rw [Phase.accepts, Option.any_eq_true] at haccepts
    obtain ⟨next, hnext, hrest⟩ := haccepts
    obtain ⟨count, hderives⟩ := ih (h.next hnext) hrest
    exact ⟨count, by simpa using hderives⟩

/-- The lines that are accepted are those of the grammar, with their brackets closed. -/
theorem Phase.accepts_start_iff :
    start.accepts terminals = true ↔
      ∃ count, Derives .expr (terminals ++ List.replicate count .closing) := by
  constructor
  · intro haccepts
    exact (Reached.lacking .nil .nil).derives_of_accepts haccepts
  · rintro ⟨count, hderives⟩
    have haccepts := hderives.accepts 0 []
    rw [List.append_nil] at haccepts
    exact accepts_of_closed haccepts

/-- A bracket may stay open, and a value may follow a number but not the other way round. -/
example : Phase.start.accepts [.before, .opening, .number, .value] = true ∧
    Phase.start.accepts [.value, .number] = false := by decide

end

end Reckoner
