import Mathlib.Data.Set.Basic
import Mathlib.Order.Bounds.Defs
import Reckoner.Proofs.Bindings

/-!
# Bindings as an assignment

What the lines of a sheet bind is a partial function from lines to bindings. The slots that hold it
have more to them: slots without a binding stand between the others, a slot that was cleared stays,
and a line that is asked about may have no slot at all. None of this shows. After any changes the
slots answer as the partial function does to which the same changes were made, and a lookup finds
the binding of the greatest line above that has the name.
-/

namespace Reckoner

/-- What each line binds, if it binds anything. -/
abbrev Assignment := Nat → Option Binding

/-- A change of what lines bind. -/
inductive Bindings.Change where
  /-- A line binds a variable from now on, and nothing if the variable has no name. -/
  | bind (line : Nat) (name : String) (value : Float)
  /-- A line binds nothing any more. -/
  | clear (line : Nat)
  /-- Only the first lines bind anything any more. -/
  | truncate (count : Nat)

namespace Assignment

/-- The assignment in which no line binds anything. -/
def empty : Assignment := fun _ ↦ none

/-- The assignment after a change. -/
def change (f : Assignment) : Bindings.Change → Assignment
  | .bind line name value =>
    Function.update f line (if name = "" then none else some ⟨name, value⟩)
  | .clear line => Function.update f line none
  | .truncate count => fun line ↦ if line < count then f line else none

/-- The empty assignment after some changes. -/
def after (changes : List Bindings.Change) : Assignment := changes.foldl change empty

/-- The lines above a line that bind a name. -/
def above (f : Assignment) (line : Nat) (name : String) : Set Nat :=
  {n | n < line ∧ ∃ value, f n = some ⟨name, value⟩}

end Assignment

namespace Bindings

/-- The first line about which a change may change anything. -/
def Change.line : Change → Nat
  | .bind line _ _ => line
  | .clear line => line
  | .truncate count => count

/-- The bindings after a change. -/
def change (bindings : Bindings) : Change → Bindings
  | .bind line name value => bindings.bind line name value
  | .clear line => bindings.clear line
  | .truncate count => bindings.truncate count

/-- The bindings after some changes, before which there were none. -/
def after (changes : List Change) : Bindings := changes.foldl change empty

variable (bindings : Bindings)

/-! ## Changes -/

/-- A change of the slots is the change of what they hold. -/
theorem at?_change (c : Change) :
    (bindings.change c).at? = Assignment.change bindings.at? c := by
  funext i
  cases c with
  | bind line name value =>
    by_cases hname : name = ""
    · subst hname
      simp only [change, bind_empty, at?_clear, Assignment.change, Function.update_apply, if_true]
    · simp only [change, at?_bind _ _ _ _ hname, Assignment.change, Function.update_apply,
        if_neg hname]
  | clear line => simp only [change, at?_clear, Assignment.change, Function.update_apply]
  | truncate count => exact at?_truncate bindings count i

/-- Slots hold what the same changes make of the empty assignment. -/
theorem at?_after (changes : List Change) : (after changes).at? = Assignment.after changes :=
  (List.foldl_hom at? fun bindings c ↦ (at?_change bindings c).symm).symm

/-- What the lines above a change bind stays as it is. -/
theorem at?_change_of_lt {c : Change} {i : Nat} (h : i < c.line) :
    (bindings.change c).at? i = bindings.at? i := by
  rw [at?_change]
  cases c with
  | bind line name value => exact Function.update_of_ne (Nat.ne_of_lt h) _ _
  | clear line => exact Function.update_of_ne (Nat.ne_of_lt h) _ _
  | truncate count => exact if_pos h

/-- A line that is not below a change finds every name as before. -/
theorem lookup?_change_of_le {c : Change} {line : Nat} (h : line ≤ c.line) (name : String) :
    (bindings.change c).lookup? line name = bindings.lookup? line name := by
  have hscope : (bindings.change c).scope line = bindings.scope line :=
    scope_congr fun i hi ↦ bindings.at?_change_of_lt (Nat.lt_of_lt_of_le hi h)
  exact congrFun (congrArg Scope.lookup? hscope) name

/-! ## Questions -/

/-- There are no bindings exactly if no line binds anything. -/
theorem isEmpty_iff : bindings.isEmpty = true ↔ ∀ n, bindings.at? n = none := by
  rw [isEmpty, List.all_eq_true]
  constructor
  · intro h n
    rw [at?]
    cases hslot : bindings.slots[n]? with
    | none => rfl
    | some slot => exact Option.isNone_iff_eq_none.mp (h slot (List.mem_of_getElem? hslot))
  · intro h slot hslot
    obtain ⟨n, hn⟩ := List.mem_iff_getElem?.mp hslot
    have hnone := h n
    rw [at?, hn] at hnone
    exact Option.isNone_iff_eq_none.mpr hnone

/-- A lookup finds the value that the greatest line above with the name gives to it. -/
theorem lookup?_eq_some_iff_isGreatest {line : Nat} {name : String} {value : Float} :
    bindings.lookup? line name = some value ↔
      ∃ n, IsGreatest (Assignment.above bindings.at? line name) n ∧
        bindings.at? n = some ⟨name, value⟩ := by
  rw [lookup?_eq_some_iff]
  constructor
  · rintro ⟨n, hn, hat, hlast⟩
    refine ⟨n, ⟨⟨hn, value, hat⟩, ?_⟩, hat⟩
    rintro k ⟨hk, other, hother⟩
    by_contra hlt
    exact hlast k (Nat.lt_of_not_le hlt) hk other hother
  · rintro ⟨n, ⟨⟨hn, -⟩, hgreatest⟩, hat⟩
    refine ⟨n, hn, hat, ?_⟩
    intro k hnk hk other hother
    exact absurd (hgreatest ⟨hk, other, hother⟩) (Nat.not_le_of_lt hnk)

/-- A lookup finds nothing exactly if no line above has the name. -/
theorem lookup?_eq_none_iff {line : Nat} {name : String} :
    bindings.lookup? line name = none ↔ Assignment.above bindings.at? line name = ∅ := by
  rw [Set.eq_empty_iff_forall_notMem]
  induction line with
  | zero => simp [Assignment.above]
  | succ line ih =>
    rw [lookup?_succ, Option.or_eq_none_iff, ih, Option.map_eq_none_iff, Option.filter_eq_none_iff]
    constructor
    · rintro ⟨hhere, habove⟩ n ⟨hn, value, hat⟩
      rcases Nat.lt_succ_iff_lt_or_eq.mp hn with hlt | rfl
      · exact habove n ⟨hlt, value, hat⟩
      · exact hhere _ hat (decide_eq_true rfl)
    · intro h
      refine ⟨?_, fun n ⟨hn, hbinds⟩ ↦ h n ⟨Nat.lt_succ_of_lt hn, hbinds⟩⟩
      rintro ⟨other, value⟩ hat hname
      obtain rfl : other = name := of_decide_eq_true hname
      exact h line ⟨Nat.lt_succ_self line, value, hat⟩

/-! ## Histories -/

/-- Slots answer every question as an assignment does, and a change of either leaves alone what the
lines down to it find. -/
structure Represents (bindings : Bindings) (f : Assignment) : Prop where
  at?_eq : ∀ n, bindings.at? n = f n
  isEmpty_iff : bindings.isEmpty = true ↔ ∀ n, f n = none
  lookup?_eq_some_iff : ∀ line name value, bindings.lookup? line name = some value ↔
    ∃ n, IsGreatest (f.above line name) n ∧ f n = some ⟨name, value⟩
  lookup?_eq_none_iff : ∀ line name, bindings.lookup? line name = none ↔ f.above line name = ∅
  lookup?_change : ∀ (c : Change) (line : Nat), line ≤ c.line → ∀ name,
    (bindings.change c).lookup? line name = bindings.lookup? line name

/-- After any changes the slots represent the assignment to which the same changes were made. -/
theorem represents_after (changes : List Change) :
    (after changes).Represents (Assignment.after changes) := by
  rw [← at?_after]
  generalize after changes = bindings
  exact {
    at?_eq := fun _ ↦ rfl
    isEmpty_iff := bindings.isEmpty_iff
    lookup?_eq_some_iff := fun _ _ _ ↦ bindings.lookup?_eq_some_iff_isGreatest
    lookup?_eq_none_iff := fun _ _ ↦ bindings.lookup?_eq_none_iff
    lookup?_change := fun _ _ h name ↦ bindings.lookup?_change_of_le h name }

end Bindings

end Reckoner
