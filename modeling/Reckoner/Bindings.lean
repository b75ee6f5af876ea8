import Reckoner.Scope

/-!
# Bindings of a sheet

Each line of a sheet may bind one variable. A line sees the variables that lines above it bind, and
of two bindings of one name the one nearest above it.
-/

namespace Reckoner

/-- A variable and its value. -/
structure Binding where
  name : String
  value : Float

/-- The bindings of a sheet, line by line. -/
structure Bindings where
  slots : List (Option Binding)

namespace Bindings

/-- No bindings. -/
def empty : Bindings := ⟨[]⟩

/-- The bindings without that of a line. -/
def clear (bindings : Bindings) (line : Nat) : Bindings := ⟨bindings.slots.set line none⟩

/-- The slots up to and with that of a line, and those that there are after it. -/
def reaching (line : Nat) (slots : List (Option Binding)) : List (Option Binding) :=
  slots ++ List.replicate (line + 1 - slots.length) none

/-- The bindings with a new one for a line. Without a name the line binds nothing.

The line is below the greatest machine word, as an index of any list in memory is. For a line that
is this word itself the slots up to it cannot be counted in a word, and in place of an answer there
is a failure. -/
def bind (bindings : Bindings) (line : Nat) (name : String) (value : Float) : Bindings :=
  if name.isEmpty then bindings.clear line
  else ⟨(reaching line bindings.slots).set line (some ⟨name, value⟩)⟩

/-- The bindings of the first lines. -/
def truncate (bindings : Bindings) (count : Nat) : Bindings := ⟨bindings.slots.take count⟩

/-- The binding of a line. -/
def at? (bindings : Bindings) (line : Nat) : Option Binding := bindings.slots[line]?.join

/-- Whether no line binds anything. -/
def isEmpty (bindings : Bindings) : Bool := bindings.slots.all Option.isNone

/-- The value of a name on a line: that of the nearest line above it which binds the name. -/
def lookup? (bindings : Bindings) (line : Nat) (name : String) : Option Float :=
  (bindings.slots.take line).reverse.findSome? fun slot ↦
    (slot.filter fun binding ↦ binding.name = name).map Binding.value

/-- The variables that a line sees. -/
def scope (bindings : Bindings) (line : Nat) : Scope := ⟨bindings.lookup? line⟩

/-! ## The bindings as a function of the line -/

@[simp] theorem at?_empty (line : Nat) : empty.at? line = none := rfl

theorem at?_clear (bindings : Bindings) (line i : Nat) :
    (bindings.clear line).at? i = if i = line then none else bindings.at? i := by
  by_cases h : i = line
  · subst h
    by_cases hi : i < bindings.slots.length <;> simp [at?, clear, hi]
  · simp [at?, clear, h, Ne.symm h]

theorem at?_truncate (bindings : Bindings) (count i : Nat) :
    (bindings.truncate count).at? i = if i < count then bindings.at? i else none := by
  rw [at?, truncate, List.getElem?_take]
  split <;> rfl

/-- The slots that are added hold nothing. -/
theorem join_getElem?_reaching (line i : Nat) (slots : List (Option Binding)) :
    (reaching line slots)[i]?.join = slots[i]?.join := by
  by_cases h : i < slots.length
  · simp [reaching, List.getElem?_append_left h]
  · rw [reaching, List.getElem?_append_right (Nat.le_of_not_lt h),
      List.getElem?_eq_none (Nat.le_of_not_lt h), List.getElem?_replicate]
    split <;> rfl

theorem at?_bind (bindings : Bindings) (line i : Nat) {name : String} (value : Float)
    (hn : name ≠ "") :
    (bindings.bind line name value).at? i =
      if i = line then some ⟨name, value⟩ else bindings.at? i := by
  rw [bind, if_neg (by simpa using hn)]
  by_cases h : i = line
  · subst h
    have hl : i < (reaching i bindings.slots).length := by
      simp only [reaching, List.length_append, List.length_replicate]
      omega
    simp [at?, hl]
  · rw [if_neg h, at?, List.getElem?_set_ne (Ne.symm h), join_getElem?_reaching, at?]

/-- Without a name a line binds nothing. -/
@[simp] theorem bind_empty (bindings : Bindings) (line : Nat) (value : Float) :
    bindings.bind line "" value = bindings.clear line := rfl

end Bindings

end Reckoner
