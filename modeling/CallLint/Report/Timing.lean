import CallLint.Decimal
import CallLint.Sorted.Map
import CallLint.Text.Pad

/-!
# Timings

How long each rule took, how often it was asked and how often it found something. Times are whole
nanoseconds; they are shown as decimals of larger units.

* `RuleTiming.average?`: the mean time, where there is one.
* `timingTable?`: the timings as a table.
-/

namespace CallLint

/-- Numbers about the evaluations of one rule. -/
structure RuleTiming where
  rule : String
  /-- The time of all evaluations, in nanoseconds. -/
  nanos : Nat
  evaluations : Nat
  /-- How many evaluations found something. -/
  hits : Nat
deriving DecidableEq, Repr

/-- Timings by rule. -/
abbrev Timings := SortedMap String RuleTiming

namespace RuleTiming

/-- No evaluation of a rule. -/
def start (rule : String) : RuleTiming := ⟨rule, 0, 0, 0⟩

/-- The evaluations of two timings; the rule is that of the first one. -/
def add (s t : RuleTiming) : RuleTiming :=
  ⟨s.rule, s.nanos + t.nanos, s.evaluations + t.evaluations, s.hits + t.hits⟩

/-- The first number that a divisor cannot hold. -/
def divisorLimit : Nat := Nat.pow 2 32

/-- The mean time of an evaluation in nanoseconds, rounded down. A divisor holds the low 32 bits of
the number of evaluations, and there is no mean when they are all zero. -/
def average? (t : RuleTiming) : Option Nat :=
  if t.evaluations = 0 then some 0
  else if t.evaluations % divisorLimit = 0 then none
  else some (t.nanos / (t.evaluations % divisorLimit))

end RuleTiming

/-- The nanoseconds of a second. -/
def nanosPerSecond : Nat := 1000000000

/-- A time in seconds. -/
def seconds (nanos : Nat) : Float :=
  Float.ofNat (nanos / nanosPerSecond) + Float.ofNat (nanos % nanosPerSecond) / 1000000000.0

/-- Timings from the longest to the shortest. -/
def sortedTimings (timings : Timings) : List RuleTiming :=
  timings.values.mergeSort fun s t => t.nanos ≤ s.nanos

/-- Five columns of a table. -/
def timingRow (rule total average evaluations hits : String) : String :=
  Text.padRight 40 rule ++ " " ++ Text.padLeft 12 total ++ " " ++ Text.padLeft 12 average ++ " "
    ++ Text.padLeft 10 evaluations ++ " " ++ Text.padLeft 12 hits ++ "\n"

/-- The row of a timing: milliseconds in all, microseconds on average. -/
def RuleTiming.row? (t : RuleTiming) : Option String := do
  let average ← t.average?
  let total := Text.padLeft 10 (Decimal.twoPlaces (seconds t.nanos * 1000.0)) ++ "ms"
  let mean := Text.padLeft 10 (Decimal.twoPlaces (seconds average * 1000000.0)) ++ "µs"
  return timingRow t.rule total mean (toString t.evaluations) (toString t.hits)

/-- The timings as a table; none if some rule has no mean. -/
def timingTable? (timings : Timings) : Option String :=
  if timings.isEmpty then some "No timing data available"
  else do
    let rows ← (sortedTimings timings).mapM RuleTiming.row?
    return "Rule Timing Statistics:\n" ++ timingRow "Rule ID" "Total" "Avg" "Evals" "Matches"
      ++ "".pushn '-' 90 ++ "\n" ++ .join rows

end CallLint
