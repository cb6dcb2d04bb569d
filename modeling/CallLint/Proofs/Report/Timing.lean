import CallLint.Report.Timing

/-!
# Where there are mean times

A rule has a mean time unless the low 32 bits of the number of its evaluations are all zero and
others are not. A table of timings needs one of every rule.

* `RuleTiming.isSome_average?_iff`: when there is a mean.
* `isSome_timingTable?_iff`: when there is a table.
-/

namespace CallLint

namespace RuleTiming

/-- A mean is missing only where a divisor would be zero. -/
theorem isSome_average?_iff {t : RuleTiming} :
    t.average?.isSome = true ↔ t.evaluations = 0 ∨ t.evaluations % divisorLimit ≠ 0 := by
  unfold average?
  split
  · -- without evaluations the mean is zero
    next h => simp [h]
  · next h => split <;> simp [*]

@[simp] theorem isSome_row? (t : RuleTiming) : t.row?.isSome = t.average?.isSome := by
  unfold row?
  cases t.average? <;> rfl

end RuleTiming

/-- What is read member by member is read if each member is. -/
@[simp] theorem isSome_mapM_iff {α β : Type} {f : α → Option β} {l : List α} :
    (l.mapM f).isSome = true ↔ ∀ a ∈ l, (f a).isSome = true := by
  induction l with
  | nil => simp
  | cons a l ih =>
    rw [List.mapM_cons, List.forall_mem_cons, ← ih]
    cases f a with
    | none => simp
    | some b => cases l.mapM f <;> simp

/-- A table has a row for every rule, so each of them needs a mean. -/
theorem isSome_timingTable?_iff {timings : Timings} :
    (timingTable? timings).isSome = true ↔ ∀ t ∈ timings.values, t.average?.isSome = true := by
  unfold timingTable?
  split
  · -- no timings, no table to make
    next h =>
    have hnone : timings.values = [] := List.map_eq_nil_iff.2 (List.isEmpty_iff.1 h)
    simp [hnone]
  · have hrows : ((sortedTimings timings).mapM RuleTiming.row?).isSome = true ↔
        ∀ t ∈ timings.values, t.average?.isSome = true := by
      simp [sortedTimings]
    rw [← hrows]
    cases (sortedTimings timings).mapM RuleTiming.row? <;> rfl

end CallLint
