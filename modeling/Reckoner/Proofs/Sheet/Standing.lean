import Reckoner.Proofs.Bindings
import Reckoner.Proofs.Outcome
import Reckoner.Sheet

/-!
# Rows that stand

A row stands in some bindings if its outcome is what its line comes to in their scope, and the slot
of the line holds exactly what the outcome declares. The rows that stand for given lines are unique,
so a sheet whose rows stand has nothing left over from the passes before.

The main statement is that a pass over any lines leaves rows that stand. Rows that are kept stood
before the pass; they still do, since as long as no row is refreshed no binding above them has
changed.
-/

namespace Reckoner

/-- The binding that a line with this outcome makes. -/
def Outcome.binding? : Outcome → Option Binding
  | .declared name v => some ⟨name, v⟩
  | _ => none

/-- A line that is no declaration binds nothing. -/
theorem Outcome.binding?_ofLine {voc : Vocabulary} {scope : Scope} {line : Line}
    (h : LineKind.of line ≠ .declaration) : (ofLine voc scope line).binding? = none := by
  cases hout : ofLine voc scope line with
  | declared name v => exact absurd (ofLine_eq_declared_iff.mp hout).1 h
  | _ => simp only [binding?]

namespace Bindings

variable (bindings : Bindings) (line : Nat) (voc : Vocabulary) (scope : Scope) (text : Line)

/-- After the outcome of a line is recorded, its slot holds the binding of the outcome and every
other slot what it held. -/
theorem at?_record (i : Nat) :
    (bindings.record line (Outcome.ofLine voc scope text)).at? i =
      if i = line then (Outcome.ofLine voc scope text).binding? else bindings.at? i := by
  cases hout : Outcome.ofLine voc scope text with
  | declared name v =>
    have hname : name ≠ "" := (Outcome.of_ofLine_eq_declared hout).1.1
    simp only [record, Outcome.binding?, at?_bind bindings line i v hname]
  | _ => simp only [record, Outcome.binding?, at?_clear]

/-- Recording an outcome changes no slot above the line. -/
theorem at?_record_of_lt {i : Nat} (h : i < line) :
    (bindings.record line (Outcome.ofLine voc scope text)).at? i = bindings.at? i := by
  rw [at?_record, if_neg (Nat.ne_of_lt h)]

/-- Recording the outcome of a line that bound nothing and is no declaration changes no slot. -/
theorem at?_record_of_ne_declaration (hunbound : bindings.at? line = none)
    (hkind : LineKind.of text ≠ .declaration) (i : Nat) :
    (bindings.record line (Outcome.ofLine voc scope text)).at? i = bindings.at? i := by
  rw [at?_record, Outcome.binding?_ofLine hkind]
  split
  · rename_i hi
    rw [hi, hunbound]
  · rfl

end Bindings

/-- The rows for the lines from an index on stand in some bindings. -/
inductive Standing (voc : Vocabulary) (bindings : Bindings) : Nat → List Row → Prop
  | nil (index : Nat) : Standing voc bindings index []
  | cons {index : Nat} {row : Row} {rows : List Row}
      (outcome_eq : row.outcome = Outcome.ofLine voc (bindings.scope index) row.line)
      (at?_eq : bindings.at? index = row.outcome.binding?)
      (rest : Standing voc bindings (index + 1) rows) : Standing voc bindings index (row :: rows)

namespace Standing

variable {voc : Vocabulary} {bindings bindings' : Bindings} {index : Nat} {rows rows' : List Row}

/-- Rows stand in all bindings that agree up to the last of them. -/
theorem congr (h : Standing voc bindings index rows)
    (hb : ∀ i < index + rows.length, bindings.at? i = bindings'.at? i) :
    Standing voc bindings' index rows := by
  induction h with
  | nil index => exact .nil index
  | @cons index row rows hout hat _ ih =>
    have hlt : index < index + (row :: rows).length := by simp
    refine .cons ?_ ?_ (ih fun i hi ↦ hb i ?_)
    · rw [hout, Bindings.scope_congr fun i hi ↦ hb i (Nat.lt_trans hi hlt)]
    · rw [← hb index hlt, hat]
    · simpa [Nat.add_assoc, Nat.add_comm 1] using hi

/-- The outcome of a row that stands. -/
theorem outcome_getElem? (h : Standing voc bindings index rows) {i : Nat} {row : Row}
    (hi : rows[i]? = some row) :
    row.outcome = Outcome.ofLine voc (bindings.scope (index + i)) row.line := by
  induction h generalizing i with
  | nil => simp at hi
  | cons hout _ _ ih =>
    cases i with
    | zero =>
      cases Option.some.inj hi
      exact hout
    | succ i =>
      have := ih (i := i) (by simpa using hi)
      rwa [Nat.add_right_comm] at this

/-- The slot of a row that stands. -/
theorem at?_getElem? (h : Standing voc bindings index rows) {i : Nat} {row : Row}
    (hi : rows[i]? = some row) : bindings.at? (index + i) = row.outcome.binding? := by
  induction h generalizing i with
  | nil => simp at hi
  | cons _ hat _ ih =>
    cases i with
    | zero =>
      cases Option.some.inj hi
      exact hat
    | succ i =>
      have := ih (i := i) (by simpa using hi)
      rwa [Nat.add_right_comm] at this

/-- Rows that stand for the same lines, below bindings that agree, have the same outcomes, and what
they bind agrees as well. -/
theorem unique (h : Standing voc bindings index rows) (h' : Standing voc bindings' index rows')
    (hlines : rows.map Row.line = rows'.map Row.line)
    (hb : ∀ i < index, bindings.at? i = bindings'.at? i) :
    rows.map Row.outcome = rows'.map Row.outcome ∧
      ∀ i < index + rows.length, bindings.at? i = bindings'.at? i := by
  induction h generalizing rows' with
  | nil index =>
    have hnil : rows' = [] := by simpa using hlines.symm
    subst hnil
    exact ⟨rfl, hb⟩
  | @cons index row rows hout hat _ ih =>
    cases h' with
    | nil => simp at hlines
    | @cons _ row' rows' hout' hat' hrest' =>
      simp only [List.map_cons, List.cons.injEq] at hlines
      have houts : row.outcome = row'.outcome := by
        rw [hout, hout', hlines.1, Bindings.scope_congr hb]
      have hb' : ∀ i < index + 1, bindings.at? i = bindings'.at? i := by
        intro i hi
        rcases Nat.lt_succ_iff_lt_or_eq.mp hi with hlt | rfl
        · exact hb i hlt
        · rw [hat, hat', houts]
      obtain ⟨hrows, hslots⟩ := ih hrest' hlines.2 hb'
      refine ⟨by simp only [List.map_cons, houts, hrows], fun i hi ↦ hslots i ?_⟩
      simpa [Nat.add_assoc, Nat.add_comm 1] using hi

end Standing

/-! ## One pass -/

namespace Pass

variable {voc : Vocabulary} {index : Nat} {refresh : Bool} {bindings : Bindings} {old : List Row}

/-- What a pass leaves behind: its rows are for its lines, they stand, and the slots above the lines
hold what they held. -/
structure Settles (voc : Vocabulary) (index : Nat) (bindings : Bindings) (lines : List Line)
    (pass : Pass) : Prop where
  lines_eq : pass.rows.map Row.line = lines
  standing : Standing voc pass.bindings index pass.rows
  at?_eq : ∀ i < index, pass.bindings.at? i = bindings.at? i

/-- Only the slots above the lines matter for what a pass leaves alone. -/
theorem Settles.congr {bindings' : Bindings} {lines : List Line} {pass : Pass}
    (h : Settles voc index bindings lines pass)
    (hb : ∀ i < index, bindings.at? i = bindings'.at? i) :
    Settles voc index bindings' lines pass :=
  ⟨h.lines_eq, h.standing, fun i hi ↦ (h.at?_eq i hi).trans (hb i hi)⟩

/-- A row that stands in the bindings above the rest of a pass may be put in front of it. -/
theorem Settles.cons {pass : Pass} {lines : List Line} {outcome : Outcome}
    (h : Settles voc (index + 1) bindings lines pass) (line : Line)
    (hout : outcome = Outcome.ofLine voc (bindings.scope index) line)
    (hat : bindings.at? index = outcome.binding?) (evaluated skipped : Nat) :
    Settles voc index bindings (line :: lines)
      ⟨⟨line, outcome⟩ :: pass.rows, pass.bindings, evaluated, skipped⟩ := by
  have habove : ∀ i < index, pass.bindings.at? i = bindings.at? i :=
    fun i hi ↦ h.at?_eq i (Nat.lt_succ_of_lt hi)
  refine ⟨by simp only [List.map_cons, h.lines_eq], .cons ?_ ?_ h.standing, habove⟩
  · rw [hout, Bindings.scope_congr habove]
  · rw [h.at?_eq index (Nat.lt_succ_self index), hat]

/-- A pass settles its lines, if the rows that it may keep stand before it. -/
theorem settles_run (lines : List Line)
    (hold : refresh = false → Standing voc bindings index old) :
    Settles voc index bindings lines (run voc index refresh bindings old lines) := by
  induction lines generalizing index refresh bindings old with
  | nil => exact ⟨rfl, .nil index, fun _ _ ↦ rfl⟩
  | cons line rest ih =>
    rw [run]
    cases hkept : old.head?.filter fun row ↦ row.line == line && !refresh with
    | some row =>
      obtain ⟨hhead, hsame⟩ := Option.filter_eq_some_iff.mp hkept
      obtain ⟨rows, rfl⟩ := List.head?_eq_some_iff.mp hhead
      simp only [Bool.and_eq_true, beq_iff_eq, Bool.not_eq_true'] at hsame
      obtain ⟨rfl, rfl⟩ := hsame
      cases hold rfl with
      | cons hout hat hrows => exact (ih fun _ ↦ hrows).cons row.line hout hat _ _
    | none =>
      have habove : ∀ i < index, (bindings.record index
          (Outcome.ofLine voc (bindings.scope index) line)).at? i = bindings.at? i :=
        fun i hi ↦ bindings.at?_record_of_lt index voc _ line hi
      refine (Settles.cons (ih fun hfalse ↦ ?_) line ?_ ?_ _ _).congr habove
      · -- Rows below may be kept only if the line bound nothing before and is no declaration.
        simp only [Bool.or_eq_false_iff, beq_eq_false_iff_ne, Option.isSome_eq_false_iff,
          Option.isNone_iff_eq_none] at hfalse
        obtain ⟨⟨hrefresh, hunbound⟩, hkind⟩ := hfalse
        cases hold hrefresh with
        | nil => exact .nil (index + 1)
        | cons _ _ hrows =>
          exact hrows.congr fun i _ ↦
            (bindings.at?_record_of_ne_declaration index voc _ line hunbound hkind i).symm
      · rw [Bindings.scope_congr habove]
      · rw [Bindings.at?_record, if_pos rfl]

end Pass

end Reckoner
