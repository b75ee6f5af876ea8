/-!
# Steps that may fail

A line is taken apart and computed in steps each of which may end in a fault. These are the laws by
which a run of such steps is taken apart again: it succeeds exactly if every step of it does.
-/

namespace Reckoner

variable {ε ε' α β : Type}

/-- After a step that succeeded the next one runs. -/
@[simp] theorem ok_bind (a : α) (f : α → Except ε β) : (Except.ok a >>= f) = f a := rfl

/-- After a step that failed no other runs. -/
@[simp] theorem error_bind (e : ε) (f : α → Except ε β) :
    (Except.error e >>= f) = Except.error e := rfl

/-- Two steps succeed exactly if the first does and the second does on its result. -/
theorem bind_eq_ok_iff {x : Except ε α} {f : α → Except ε β} {b : β} :
    (x >>= f) = .ok b ↔ ∃ a, x = .ok a ∧ f a = .ok b := by
  cases x <;> simp

/-- Faults may be renamed after two steps or in each of them. -/
theorem mapError_bind {x : Except ε α} {f : α → Except ε β} (g : ε → ε') :
    (x >>= f).mapError g = x.mapError g >>= fun a ↦ (f a).mapError g := by
  cases x <;> rfl

/-- A step on a changed result. -/
theorem map_bind (x : Except ε α) (g : α → α) (f : α → Except ε β) :
    x.map g >>= f = x >>= fun a ↦ f (g a) := by
  cases x <;> rfl

/-- Changing the result of two steps is changing that of the second. -/
theorem bind_map (x : Except ε α) (f : α → Except ε β) (g : β → β) :
    (x >>= f).map g = x >>= fun a ↦ (f a).map g := by
  cases x <;> rfl

/-- A step has a result if and only if it succeeded with it. -/
theorem toOption_eq_some_iff {x : Except ε α} {a : α} : x.toOption = some a ↔ x = .ok a := by
  cases x <;> simp [Except.toOption]

/-- A step that has a result succeeds. -/
theorem exists_of_isSome_toOption {x : Except ε α} (h : x.toOption.isSome = true) :
    ∃ a, x = .ok a := by
  obtain ⟨a, ha⟩ := Option.isSome_iff_exists.mp h
  exact ⟨a, toOption_eq_some_iff.mp ha⟩

/-- A step that has a result of a kind succeeds with such a result. -/
theorem exists_of_any_toOption {x : Except ε α} {p : α → Bool} (h : x.toOption.any p = true) :
    ∃ a, x = .ok a ∧ p a = true := by
  obtain ⟨a, ha, hp⟩ := (Option.any_eq_true _ _).mp h
  exact ⟨a, toOption_eq_some_iff.mp ha, hp⟩

/-- Renaming the faults of a step does not change when it succeeds. -/
@[simp] theorem mapError_eq_ok_iff {x : Except ε α} {f : ε → ε'} {a : α} :
    x.mapError f = .ok a ↔ x = .ok a := by
  cases x with
  | error e => exact ⟨(nomatch ·), (nomatch ·)⟩
  | ok b =>
    have hkept : (Except.ok b : Except ε α).mapError f = .ok b := rfl
    rw [hkept, Except.ok.injEq, Except.ok.injEq]

end Reckoner
