import Reckoner.Bindings

/-!
# Looking names up

A lookup from a line walks upwards from the line above it. One step of that walk is an equation on
`Bindings.at?`, and by it two collections of bindings that agree above a line give that line the
same scope, whatever they hold below it.
-/

namespace Reckoner.Bindings

variable {bindings bindings' : Bindings}

/-- No line is above the first. -/
@[simp] theorem lookup?_zero (bindings : Bindings) (name : String) :
    bindings.lookup? 0 name = none := rfl

/-- One step upwards: the binding directly above decides if it has the name, and otherwise the
lines above that one do. -/
theorem lookup?_succ (bindings : Bindings) (line : Nat) (name : String) :
    bindings.lookup? (line + 1) name =
      (((bindings.at? line).filter fun binding ↦ binding.name = name).map Binding.value).or
        (bindings.lookup? line name) := by
  simp only [lookup?, at?, List.take_add_one, List.reverse_append, List.findSome?_append]
  cases bindings.slots[line]? with
  | none => simp
  | some slot => cases slot <;> simp

/-- A line sees only what is bound above it. -/
theorem scope_congr {line : Nat} (h : ∀ i < line, bindings.at? i = bindings'.at? i) :
    bindings.scope line = bindings'.scope line := by
  have key : bindings.lookup? line = bindings'.lookup? line := by
    funext name
    induction line with
    | zero => rfl
    | succ line ih =>
      rw [lookup?_succ, lookup?_succ, h line (Nat.lt_succ_self line),
        ih fun i hi ↦ h i (Nat.lt_succ_of_lt hi)]
  rw [scope, scope, key]

/-- A name has a value on a line exactly if some line above binds it to that value and no line
between the two binds it again. -/
theorem lookup?_eq_some_iff {line : Nat} {name : String} {value : Float} :
    bindings.lookup? line name = some value ↔
      ∃ j < line, bindings.at? j = some ⟨name, value⟩ ∧
        ∀ k, j < k → k < line → ∀ other, bindings.at? k ≠ some ⟨name, other⟩ := by
  induction line with
  | zero => simp
  | succ line ih =>
    rw [lookup?_succ]
    by_cases h : ∃ other, bindings.at? line = some ⟨name, other⟩
    · obtain ⟨other, h⟩ := h
      rw [h]
      simp only [Option.filter_some, decide_true, if_true, Option.map_some, Option.some_or,
        Option.some.injEq]
      constructor
      · rintro rfl
        exact ⟨line, Nat.lt_succ_self line, h, fun k hk hk' ↦ by omega⟩
      · rintro ⟨j, hj, hat, hlast⟩
        rcases Nat.lt_succ_iff_lt_or_eq.mp hj with hlt | rfl
        · exact absurd h (hlast line hlt (Nat.lt_succ_self line) other)
        · rw [h] at hat
          exact congrArg Binding.value (Option.some.inj hat)
    · have hnone : (bindings.at? line).filter (fun binding ↦ binding.name = name) = none := by
        cases hb : bindings.at? line with
        | none => rfl
        | some binding =>
          have hne : binding.name ≠ name := fun he ↦ h ⟨binding.value, by rw [hb, ← he]⟩
          simp [hne]
      rw [hnone, Option.map_none, Option.none_or, ih]
      constructor
      · rintro ⟨j, hj, hat, hlast⟩
        refine ⟨j, Nat.lt_succ_of_lt hj, hat, fun k hk hk' other ↦ ?_⟩
        rcases Nat.lt_succ_iff_lt_or_eq.mp hk' with hlt | rfl
        · exact hlast k hk hlt other
        · exact fun he ↦ h ⟨other, he⟩
      · rintro ⟨j, hj, hat, hlast⟩
        rcases Nat.lt_succ_iff_lt_or_eq.mp hj with hlt | rfl
        · exact ⟨j, hlt, hat, fun k hk hk' ↦ hlast k hk (Nat.lt_succ_of_lt hk')⟩
        · exact absurd ⟨value, hat⟩ h

end Reckoner.Bindings
