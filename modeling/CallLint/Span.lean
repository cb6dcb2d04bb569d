/-!
# Spans

A span is a range of byte offsets in a source text. Nothing forces its ends to be in order; one
whose end is not after its start is empty.

* `Span.overlaps_comm`: overlapping is symmetric.
-/

namespace CallLint

/-- The bytes from `start` up to, and without, `stop`. -/
structure Span where
  start : Nat
  stop : Nat
deriving DecidableEq, Repr, Inhabited

namespace Span

/-- How many bytes the span has. -/
def length (s : Span) : Nat := s.stop - s.start

/-- Whether the span has no bytes. -/
def isEmpty (s : Span) : Bool := s.stop ≤ s.start

/-- Whether the ends of `t` lie within the ends of `s`. -/
def contains (s t : Span) : Bool := s.start ≤ t.start && t.stop ≤ s.stop

/-- Whether each of two spans starts before the other ends. -/
def overlaps (s t : Span) : Bool := s.start < t.stop && t.start < s.stop

/-- Spans are ordered by their start, then by their end. -/
instance : Ord Span := ⟨fun s t => (compare s.start t.start).then (compare s.stop t.stop)⟩

instance : Std.TransOrd Span :=
  inferInstanceAs (Std.TransCmp (compareLex (compareOn start) (compareOn stop)))

/-- A span in words: `3..7`. -/
def render (s : Span) : String := s!"{s.start}..{s.stop}"

/-- The empty span at an offset. -/
def point (offset : Nat) : Span := ⟨offset, offset⟩

/-- Overlapping does not depend on the order. -/
theorem overlaps_comm (s t : Span) : s.overlaps t = t.overlaps s := by
  simp [overlaps, Bool.and_comm]

/-- A span with bytes ends behind its start. -/
theorem isEmpty_eq_false_iff {s : Span} : s.isEmpty = false ↔ s.start < s.stop := by
  rw [isEmpty, decide_eq_false_iff_not, Nat.not_le]

/-- Spans keep apart if one ends where the other starts, or before. -/
theorem overlaps_eq_false_iff {s t : Span} :
    s.overlaps t = false ↔ t.stop ≤ s.start ∨ s.stop ≤ t.start := by
  rw [overlaps, Bool.and_eq_false_iff, decide_eq_false_iff_not, decide_eq_false_iff_not, Nat.not_lt,
    Nat.not_lt]

/-- Spans are compared by their starts first. -/
theorem isLE_compare_iff {s t : Span} :
    (compare s t).isLE = true ↔ s.start < t.start ∨ s.start = t.start ∧ s.stop ≤ t.stop := by
  change ((compare s.start t.start).then (compare s.stop t.stop)).isLE = true ↔ _
  rcases Nat.lt_trichotomy s.start t.start with h | h | h
  · simp [Nat.compare_eq_lt.2 h, h]
  · simp [h, Nat.isLE_compare]
  · simp [Nat.compare_eq_gt.2 h, Nat.ne_of_gt h, Nat.not_lt_of_gt h]

/-- A span without length is an empty one. -/
theorem length_eq_zero_iff {s : Span} : s.length = 0 ↔ s.isEmpty = true := by
  simp [length, isEmpty, Nat.sub_eq_zero_iff_le]

end Span

end CallLint
