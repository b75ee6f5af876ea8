/-!
# Spans

A span is a half-open range of character positions on a line.
-/

namespace Reckoner

/-- The positions from `start` up to, but not including, `stop`. -/
@[ext]
structure Span where
  /-- The first position of the span. -/
  start : Nat
  /-- The position after the last one of the span. -/
  stop : Nat
deriving DecidableEq, Repr, Inhabited

namespace Span

/-- The span of one character. -/
def single (index : Nat) : Span := ⟨index, index + 1⟩

/-- The empty span just before a position. -/
def before (index : Nat) : Span := ⟨index, index⟩

/-- The smallest span that covers both. -/
def hull (a b : Span) : Span := ⟨min a.start b.start, max a.stop b.stop⟩

/-- The span moved to the right. -/
def shift (span : Span) (offset : Nat) : Span := ⟨span.start + offset, span.stop + offset⟩

/-- Whether a position lies in the span. -/
def contains (span : Span) (index : Nat) : Bool := span.start ≤ index && index < span.stop

/-- The written form of a span, its two ends with two points between them. -/
def text (span : Span) : String := Nat.repr span.start ++ ".." ++ Nat.repr span.stop

@[simp] theorem start_shift (span : Span) (n : Nat) : (span.shift n).start = span.start + n := rfl

@[simp] theorem stop_shift (span : Span) (n : Nat) : (span.shift n).stop = span.stop + n := rfl

@[simp] theorem shift_zero (span : Span) : span.shift 0 = span := rfl

@[simp] theorem shift_shift (span : Span) (m n : Nat) :
    (span.shift m).shift n = span.shift (m + n) := by
  simp [shift, Nat.add_assoc]

theorem contains_iff {span : Span} {index : Nat} :
    span.contains index = true ↔ span.start ≤ index ∧ index < span.stop := by
  simp [contains]

end Span

end Reckoner
