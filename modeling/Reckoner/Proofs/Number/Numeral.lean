import Mathlib.Data.List.TakeWhile
import Reckoner.Number.Shortest
import Reckoner.Proofs.Token.Lexemes

/-!
# The written form of a double is a numeral

A finite double without a sign is written with digits and at most one decimal point, which has
digits on both sides. Such a text is one number on a line.
-/

namespace Reckoner

/-! ## Digits with at most one point -/

/-- Digits, with at most one decimal point, which has digits on both sides. -/
inductive IsPositional : List Char → Prop
  | whole {digits : List Char} (hne : digits ≠ []) (hall : ∀ c ∈ digits, c.isDigit = true) :
    IsPositional digits
  | pointed {whole fraction : List Char} (hwhole : whole ≠ []) (hfraction : fraction ≠ [])
    (hall : ∀ c ∈ whole ++ fraction, c.isDigit = true) :
    IsPositional (whole ++ '.' :: fraction)

/-- No digit is a point. -/
theorem point_not_mem_of_isDigit {text : List Char} (h : ∀ c ∈ text, c.isDigit = true) :
    '.' ∉ text := by
  intro hmem
  have hdigit := h '.' hmem
  cases hdigit

namespace IsPositional

variable {text : List Char}

theorem isDigit_or (h : IsPositional text) : ∀ c ∈ text, c.isDigit = true ∨ c = '.' := by
  cases h with
  | whole _ hall => exact fun c hc ↦ .inl (hall c hc)
  | pointed _ _ hall =>
    intro c hc
    rcases List.mem_append.mp hc with hc | hc
    · exact .inl (hall c (List.mem_append_left _ hc))
    · rcases List.mem_cons.mp hc with hc | hc
      · exact .inr hc
      · exact .inl (hall c (List.mem_append_right _ hc))

/-- Nothing groups the digits. -/
theorem ne_comma (h : IsPositional text) : ∀ c ∈ text, c ≠ ',' := by
  rintro c hc rfl
  rcases h.isDigit_or ',' hc with h | h
  · cases h
  · exact absurd h (by decide)

/-- Digits with at most one point are the characters of a number. -/
theorem isNumeral (h : IsPositional text) : IsNumeral text where
  all c hc := by
    rw [isNumberChar]
    rcases h.isDigit_or c hc with hc | hc <;> simp [hc]
  head := by
    cases h with
    | whole hne hall =>
      obtain ⟨c, digits, rfl⟩ := List.exists_cons_of_ne_nil hne
      simp [hall c List.mem_cons_self]
    | @pointed whole fraction hwhole hfraction hall =>
      obtain ⟨c, digits, rfl⟩ := List.exists_cons_of_ne_nil hwhole
      simp [hall c List.mem_cons_self]
  last := by
    cases h with
    | whole hne hall =>
      rw [List.getLast?_eq_some_getLast hne, Option.any_some]
      exact hall _ (List.getLast_mem hne)
    | @pointed whole fraction hwhole hfraction hall =>
      have hlast : (whole ++ '.' :: fraction).getLast? = some (fraction.getLast hfraction) := by
        rw [List.getLast?_append, List.getLast?_cons_of_ne_nil hfraction,
          List.getLast?_eq_some_getLast hfraction, Option.some_or]
      rw [hlast, Option.any_some]
      exact hall _ (List.mem_append_right _ (List.getLast_mem hfraction))
  points := by
    cases h with
    | whole _ hall => simp [List.count_eq_zero_of_not_mem (point_not_mem_of_isDigit hall)]
    | @pointed whole fraction _ _ hall =>
      have hnone := point_not_mem_of_isDigit hall
      simp only [List.mem_append, not_or] at hnone
      rw [List.count_append, List.count_cons_self, List.count_eq_zero_of_not_mem hnone.1,
        List.count_eq_zero_of_not_mem hnone.2]

end IsPositional

/-! ## Decimal numbers -/

theorem isDigit_of_mem_zeros {count : Nat} : ∀ c ∈ zeros count, c.isDigit = true := by
  intro c hc
  rw [List.eq_of_mem_replicate hc]
  rfl

/-- Digits are laid out with a point among digits, if with a point. -/
theorem isPositional_positional {digits : List Char} (hne : digits ≠ [])
    (hall : ∀ c ∈ digits, c.isDigit = true) (magnitude : Int) :
    IsPositional (positional digits magnitude) := by
  rw [positional]
  split
  · change IsPositional (['0'] ++ '.' :: (zeros _ ++ digits))
    refine .pointed (List.cons_ne_nil '0' []) (List.append_ne_nil_of_right_ne_nil _ hne) ?_
    intro c hc
    rcases List.mem_append.mp hc with hc | hc
    · rw [List.mem_singleton.mp hc]
      rfl
    · rcases List.mem_append.mp hc with hc | hc
      · exact isDigit_of_mem_zeros c hc
      · exact hall c hc
  · dsimp only
    split
    · refine .whole (List.append_ne_nil_of_left_ne_nil hne _) fun c hc ↦ ?_
      rcases List.mem_append.mp hc with hc | hc
      · exact hall c hc
      · exact isDigit_of_mem_zeros c hc
    · rename_i hlength
      refine .pointed ?_ ?_ ?_
      · simpa using hne
      · rw [← List.length_pos_iff, List.length_drop]
        omega
      · rwa [List.take_append_drop]

/-- A positive number has a digit other than zero. -/
theorem exists_mem_digits_ne {n : Nat} (h : n ≠ 0) : ∃ c ∈ digits n, c ≠ '0' := by
  induction n using Nat.strongRecOn with
  | ind n ih =>
    by_cases hlt : n < 10
    · rw [digits, Nat.toDigits_of_lt_base hlt]
      exact ⟨_, List.mem_singleton_self _, mt Nat.digitChar_eq_zero.mp h⟩
    · obtain ⟨c, hc, hne⟩ := ih (n / 10) (by omega) (by omega)
      rw [digits, Nat.toDigits_of_base_le (by decide) (Nat.le_of_not_lt hlt)]
      exact ⟨c, List.mem_append_left _ hc, hne⟩

/-- A positive coefficient has significant digits. -/
theorem Decimal.significant_ne_nil {x : Decimal} (h : x.coefficient ≠ 0) : x.significant ≠ [] := by
  intro hnil
  obtain ⟨c, hc, hne⟩ := exists_mem_digits_ne h
  rw [significant, List.reverse_eq_nil_iff, List.dropWhile_eq_nil_iff] at hnil
  exact hne (of_decide_eq_true (hnil c (List.mem_reverse.mpr hc)))

theorem Decimal.isDigit_of_mem_significant {x : Decimal} :
    ∀ c ∈ x.significant, c.isDigit = true := by
  intro c hc
  have hdigits : c ∈ digits x.coefficient :=
    List.mem_reverse.mp ((List.dropWhile_sublist _).mem (List.mem_reverse.mp hc))
  exact Nat.isDigit_of_mem_toDigits (by decide) (by decide) hdigits

/-! ## Doubles -/

namespace Binary

variable {x : Binary}

/-- Zero rounds to no positive number. -/
theorem denotedBy_zero (hpos : 0 < x.mantissa) (g : Int) : x.denotedBy 0 g = false := by
  have hinterval : 0 < x.roundingInterval.1 := by
    rw [roundingInterval]
    dsimp only
    split <;> omega
  have hlow : 0 < x.roundingInterval.1 *
      (Nat.pow 2 (x.exponent - 2).toNat * Nat.pow 10 (-g).toNat) :=
    Nat.mul_pos hinterval (Nat.mul_pos (Nat.pow_pos (by decide)) (Nat.pow_pos (by decide)))
  rw [denotedBy]
  simp only [Nat.zero_mul]
  split
  · rw [decide_eq_false (Nat.not_le_of_lt hlow), Bool.false_and]
  · rw [decide_eq_false (Nat.not_lt_zero _), Bool.false_and]

/-- A point of a grid that denotes a positive number is not zero. -/
theorem ne_zero_of_denotedBy (hpos : 0 < x.mantissa) {c : Nat} {g : Int}
    (h : x.denotedBy c g = true) : c ≠ 0 := by
  rintro rfl
  rw [denotedBy_zero hpos g] at h
  cases h

theorem coefficient_ne_zero_of_onGrid? (hpos : 0 < x.mantissa) {places : Nat} {d : Decimal}
    (h : x.onGrid? places = some d) : d.coefficient ≠ 0 := by
  rw [onGrid?] at h
  split at h
  · rename_i hlow hhigh
    cases h
    dsimp only
    split
    · exact ne_zero_of_denotedBy hpos hlow
    · exact ne_zero_of_denotedBy hpos hhigh
  · rename_i hlow _
    cases h
    exact ne_zero_of_denotedBy hpos hlow
  · rename_i hhigh
    cases h
    exact ne_zero_of_denotedBy hpos hhigh
  · cases h

/-- The shortest decimal number of a positive one is positive. -/
theorem coefficient_shortest_ne_zero (hpos : 0 < x.mantissa) : x.shortest.coefficient ≠ 0 := by
  rw [shortest]
  cases hfound : (List.range 17).findSome? fun i ↦ x.onGrid? (i + 1) with
  | none =>
    have hproduct : 0 < x.mantissa * Nat.pow 2 x.exponent.toNat * Nat.pow 5 (-x.exponent).toNat :=
      Nat.mul_pos (Nat.mul_pos hpos (Nat.pow_pos (by decide))) (Nat.pow_pos (by decide))
    exact Nat.ne_of_gt hproduct
  | some d =>
    obtain ⟨i, -, hgrid⟩ := List.exists_of_findSome?_eq_some hfound
    exact coefficient_ne_zero_of_onGrid? hpos hgrid

end Binary

/-- A finite double whose sign bit is clear. -/
def isUnsigned (value : Float) : Bool := (Binary.ofFloat? value).any fun x ↦ !x.negative

/-- A finite double without a sign is written with digits and at most one point. -/
theorem isPositional_shortestText {value : Float} (h : isUnsigned value = true) :
    IsPositional (shortestText value) := by
  rw [isUnsigned, Option.any_eq_true] at h
  obtain ⟨x, hx, hsign⟩ := h
  rw [Bool.not_eq_true'] at hsign
  simp only [shortestText, hx, hsign, Bool.false_eq_true, if_false]
  split
  · refine .whole (List.cons_ne_nil _ _) fun c hc ↦ ?_
    rw [List.mem_singleton.mp hc]
    rfl
  · rename_i hne
    have hcoefficient := Binary.coefficient_shortest_ne_zero (Nat.pos_of_ne_zero hne)
    exact isPositional_positional (Decimal.significant_ne_nil hcoefficient)
      Decimal.isDigit_of_mem_significant _

end Reckoner
