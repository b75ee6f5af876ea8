import Mathlib.Data.List.Basic
import Reckoner.Proofs.Expr.Stands

/-!
# The stacks in the order of the line

What the two stacks hold comes from portions of the line that follow each other: each waiting
operator between two operands stands directly behind the finished expression that is its left one,
and what was opened later waits above what was opened before. So the operator that is applied next
finds its operands on the two sides of it, and nothing can fail then but that the new expression is
too high. Operators may be applied one after the other, as many as wait.
-/

namespace Reckoner

open Descent

/-! ## Applying one operator after the other -/

/-- Whether the operator stands between two operands. -/
def Waiting.isBetween (waiting : Waiting) : Bool :=
  match waiting.op with
  | .between _ => true
  | .beside _ => false

/-- From some waiting operators and finished expressions others are come to by applying operators
one after the other. -/
inductive Applies (limit : Option Nat) :
    List Waiting → List Completed → List Waiting → List Completed → Prop
  | refl {waiting : List Waiting} {done : List Completed} : Applies limit waiting done waiting done
  | head {first : Waiting} {others waiting : List Waiting} {done done' done'' : List Completed}
    (happly : first.apply limit done = .ok done') (h : Applies limit others done' waiting done'') :
    Applies limit (first :: others) done waiting done''

section

variable {limit : Option Nat} {isDue : Waiting → Bool} {first : Waiting}
  {waiting others : List Waiting} {done : List Completed}

/-- Where applying what is due succeeds, operators were applied one after the other, and the next
one is not due. -/
theorem applies_of_applyDue {result : List Waiting × List Completed}
    (h : applyDue limit isDue waiting done = .ok result) :
    Applies limit waiting done result.1 result.2 ∧ ∀ next ∈ result.1.head?, isDue next = false := by
  induction waiting generalizing done with
  | nil =>
    cases h
    exact ⟨.refl, fun _ ↦ nofun⟩
  | cons first waiting ih =>
    rw [applyDue] at h
    split at h
    · obtain ⟨done', happly, h⟩ := bind_eq_ok_iff.mp h
      obtain ⟨happlies, hnext⟩ := ih h
      exact ⟨.head happly happlies, hnext⟩
    · rename_i hdue
      cases h
      refine ⟨.refl, ?_⟩
      rintro next ⟨⟩
      exact Bool.eq_false_iff.mpr hdue

/-- Where applying what is due fails, applying an operator fails after others were applied. -/
theorem exists_of_applyDue_eq_error {fault : Located ReadingFault}
    (h : applyDue limit isDue waiting done = .error fault) :
    ∃ first others done', Applies limit waiting done (first :: others) done' ∧
      first.apply limit done' = .error fault := by
  induction waiting generalizing done with
  | nil => cases h
  | cons first waiting ih =>
    rw [applyDue] at h
    split at h
    · cases happly : first.apply limit done with
      | error fault' =>
        rw [happly] at h
        exact ⟨first, waiting, done, .refl, happly.trans (congrArg _ (Except.error.inj h))⟩
      | ok done' =>
        rw [happly] at h
        obtain ⟨next, others, done'', happlies, hfails⟩ := ih h
        exact ⟨next, others, done'', .head happly happlies, hfails⟩
    · cases h

end

/-! ## What stands on the line -/

/-- The waiting operators and the finished expressions stand in front of a position, each operator
behind its left operand if it has one, and no operator was opened in a layer inside that of a later
one. -/
inductive Laid : List Waiting → List Completed → Nat → Prop
  | nil : Laid [] [] 0
  | push {frame : Frame} {first : Waiting} {waiting : List Waiting}
    {lefts done : List Completed} {stop : Nat} (h : Laid waiting done stop)
    (hlayer : ∀ other ∈ waiting, other.layer ≤ first.layer)
    (hentry : Entry stop frame first lefts) :
    Laid (first :: waiting) (lefts ++ done) first.span.stop

section

variable {limit : Option Nat} {frame : Frame} {first : Waiting} {waiting waiting' : List Waiting}
  {lefts done done' : List Completed} {value : Expr} {start stop : Nat}

/-- Behind the finished expressions that are left operands a value may stand. The operator that is
applied next takes it, and leaves another value. -/
theorem Laid.exists_takes (h : Laid (first :: waiting) done start)
    (hvalue : value.LiesIn start stop) :
    ∃ expr rest start', first.Takes (value.measured :: done) expr rest ∧ Laid waiting rest start' ∧
      expr.LiesIn start' stop := by
  cases h with
  | @push frame _ _ lefts rest start' h hlayer hentry =>
    exact ⟨frame.close value, rest, start', hentry.takes hvalue rest, h,
      (hentry.apply hvalue rest).2⟩

/-- Whatever was applied, a value stands behind the left operands of the operators that still
wait. -/
theorem Laid.exists_of_applies (h : Laid waiting done start) (hvalue : value.LiesIn start stop)
    (happlies : Applies limit waiting (value.measured :: done) waiting' done') :
    ∃ (value' : Expr) (rest : List Completed) (start' : Nat), done' = value'.measured :: rest ∧
      Laid waiting' rest start' ∧ value'.LiesIn start' stop := by
  generalize hdone : value.measured :: done = all at happlies
  induction happlies generalizing value done start with
  | refl => exact ⟨value, done, start, hdone.symm, h, hvalue⟩
  | head happly _ ih =>
    subst hdone
    obtain ⟨expr, rest, start', htakes, h, hexpr⟩ := h.exists_takes hvalue
    rw [htakes.apply_eq] at happly
    split at happly
    · exact ih h hexpr (Except.ok.inj happly)
    · cases happly

/-- Of the finished expressions each is the left operand of a waiting operator. -/
theorem Laid.length_eq_countP (h : Laid waiting done start) :
    done.length = waiting.countP Waiting.isBetween := by
  induction h with
  | nil => rfl
  | push _ _ hentry ih =>
    rw [List.length_append, ih, List.countP_cons, Nat.add_comm]
    cases hentry <;> rfl

theorem Laid.pairwise_layer (h : Laid waiting done start) :
    waiting.Pairwise fun later earlier ↦ earlier.layer ≤ later.layer := by
  induction h with
  | nil => exact .nil
  | push _ hlayer _ ih => exact .cons hlayer ih

/-- No operator was opened inside a layer if the last one was not. -/
theorem Laid.layer_le {layer : Nat} (h : Laid waiting done start)
    (hnext : ∀ next ∈ waiting.head?, next.layer ≤ layer) :
    ∀ first ∈ waiting, first.layer ≤ layer := by
  cases h with
  | nil => exact fun _ ↦ nofun
  | @push _ first _ _ _ _ _ hlayer _ =>
    have hfirst : first.layer ≤ layer := hnext first rfl
    exact List.forall_mem_cons.mpr
      ⟨hfirst, fun other hother ↦ Nat.le_trans (hlayer other hother) hfirst⟩

/-- A bracket that opens changes no more than an order. -/
theorem Laid.promote {layer : Nat} (h : Laid waiting done start)
    (hlayer : ∀ first ∈ waiting, first.layer ≤ layer) :
    Laid (Stacks.promote waiting) done start ∧
      ∀ first ∈ Stacks.promote waiting, first.layer ≤ layer := by
  cases h with
  | nil => exact ⟨.nil, hlayer⟩
  | push h hinside hentry =>
    cases hentry with
    | between hleft hspan => exact ⟨.push h hinside (.between hleft hspan), hlayer⟩
    | before hstart hspan =>
      obtain ⟨hfirst, hothers⟩ := List.forall_mem_cons.mp hlayer
      simp only [Stacks.promote]
      split
      · exact ⟨.push h hinside (.before hstart hspan), List.forall_mem_cons.mpr ⟨hfirst, hothers⟩⟩
      · exact ⟨.push h hinside (.before hstart hspan), List.forall_mem_cons.mpr ⟨hfirst, hothers⟩⟩

end

/-- What is on one of the stacks and was read from a portion of the line. -/
inductive Portion where
  | finished (expr : Expr)
  | waiting (operator : Waiting)

namespace Portion

/-- The characters of the portion. -/
def span : Portion → Span
  | finished expr => expr.span
  | waiting operator => operator.span

def expr? : Portion → Option Expr
  | finished expr => some expr
  | waiting _ => none

def operator? : Portion → Option Waiting
  | finished _ => none
  | waiting operator => some operator

/-- Portions follow each other on the line, up to a position. -/
structure Follow (stop : Nat) (portions : List Portion) : Prop where
  pairwise : portions.Pairwise (·.span.stop ≤ ·.span.start)
  le_stop : ∀ portion ∈ portions,
    portion.span.start ≤ portion.span.stop ∧ portion.span.stop ≤ stop
  /-- An operator between two operands stands directly behind the left one. -/
  left_operand : ∀ before operator after, portions = before ++ waiting operator :: after →
    operator.isBetween = true → ∃ left, before.getLast? = some (finished left)

/-- The two stacks, each from its bottom, are merged into portions, and each finished expression has
its height beside it. -/
structure Merges (operators : List Waiting) (done : List Completed) (portions : List Portion) :
    Prop where
  operators_eq : portions.filterMap operator? = operators.reverse
  done_eq : (portions.filterMap expr?).map Expr.measured = done.reverse

variable {portions : List Portion} {stop stop' : Nat} {operators : List Waiting}
  {done : List Completed}

theorem Follow.mono (h : Follow stop portions) (hle : stop ≤ stop') : Follow stop' portions :=
  ⟨h.pairwise, fun portion hportion ↦ ⟨(h.le_stop portion hportion).1,
    Nat.le_trans (h.le_stop portion hportion).2 hle⟩, h.left_operand⟩

/-- One more portion. -/
theorem Follow.concat (h : Follow stop portions) (portion : Portion)
    (hstart : stop ≤ portion.span.start) (hspan : portion.span.start ≤ portion.span.stop)
    (hleft : ∀ operator, portion = waiting operator → operator.isBetween = true →
      ∃ left, portions.getLast? = some (finished left)) :
    Follow portion.span.stop (portions ++ [portion]) where
  pairwise := by
    refine List.pairwise_append.mpr ⟨h.pairwise, List.pairwise_singleton _ _, ?_⟩
    intro earlier hearlier last hlast
    rw [List.mem_singleton.mp hlast]
    exact Nat.le_trans (h.le_stop earlier hearlier).2 hstart
  le_stop := by
    refine List.forall_mem_append.mpr ⟨fun earlier hearlier ↦ ?_,
      List.forall_mem_singleton.mpr ⟨hspan, Nat.le_refl _⟩⟩
    obtain ⟨hwidth, hstop⟩ := h.le_stop earlier hearlier
    exact ⟨hwidth, Nat.le_trans hstop (Nat.le_trans hstart hspan)⟩
  left_operand before operator after heq hbetween := by
    -- The operator is the last portion or one of those in front of it.
    rcases List.eq_nil_or_concat after with rfl | ⟨after, last, rfl⟩
    · obtain ⟨rfl, hlast⟩ := List.append_inj' heq rfl
      exact hleft operator (List.singleton_inj.mp hlast) hbetween
    · rw [List.concat_eq_append, ← List.cons_append, ← List.append_assoc] at heq
      exact h.left_operand before operator after (List.append_inj' heq rfl).1 hbetween

theorem Merges.finish (h : Merges operators done portions) (expr : Expr) :
    Merges operators (expr.measured :: done) (portions ++ [finished expr]) := by
  constructor
  · simp [List.filterMap_append, h.operators_eq, operator?]
  · simp [List.filterMap_append, h.done_eq, expr?]

theorem Merges.wait (h : Merges operators done portions) (operator : Waiting) :
    Merges (operator :: operators) done (portions ++ [waiting operator]) := by
  constructor
  · simp [List.filterMap_append, h.operators_eq, operator?]
  · simp [List.filterMap_append, h.done_eq, expr?]

end Portion

/-- What is laid can be merged into portions that follow each other. -/
theorem Laid.exists_portions {waiting : List Waiting} {done : List Completed} {stop : Nat}
    (h : Laid waiting done stop) :
    ∃ portions, Portion.Merges waiting done portions ∧ Portion.Follow stop portions := by
  induction h with
  | nil => exact ⟨[], ⟨rfl, rfl⟩, .nil, fun _ ↦ nofun, fun _ _ _ heq ↦ by simp at heq⟩
  | @push frame first waiting lefts done stop h hlayer hentry ih =>
    obtain ⟨portions, hmerges, hfollow⟩ := ih
    cases hentry with
    | @between op left layer span hleft hspan =>
      have hfinished : Portion.Follow left.span.stop (portions ++ [.finished left]) :=
        hfollow.concat (.finished left) hleft.start_le hleft.le fun _ heq ↦ nomatch heq
      refine ⟨_, (hmerges.finish left).wait _,
        hfinished.concat (.waiting _) hleft.le_stop hspan fun _ _ _ ↦ ?_⟩
      exact ⟨left, List.getLast?_concat⟩
    | @before op order layer span hstart hspan =>
      refine ⟨_, hmerges.wait _, hfollow.concat (.waiting _) hstart hspan ?_⟩
      rintro operator ⟨⟩ hbetween
      cases hbetween

end Reckoner
