import Mathlib.Algebra.Ring.Nat
import Mathlib.Data.List.Induction
import CallLint.Proofs.Report.Counting
import CallLint.Proofs.Report.Timing
import CallLint.Record

/-!
# Mean times over many reports

A batch adds up the times and the evaluations of each rule over all reports that it has grown from,
and a mean time is the quotient of the two sums. But a divisor holds the low 32 bits of the number
of evaluations. So the mean is right as long as a rule has been evaluated less than 2^32 times.
Beyond that it is too large or missing, unless it is zero, and then the table of timings may be
missing as well.

* `RuleTiming.sum?`: the sum of some timings. `BatchReport.get?_timings_foldl`: it is what a batch
  has for a rule.
* `BatchReport.exists_reports_of_grown`: batches grow report by report, however they have been
  merged.
* `RuleTiming.average?_eq_div_iff`: when a mean is right.
* `BatchReport.timingTable?_eq_none_iff`: when a table is missing. `BatchReport.means_of_grown`: all
  of it.
-/

namespace CallLint

namespace RuleTiming

/-! ## Sums of timings -/

/-- Some timings of a rule as one, if there are any. -/
def sum? (timings : List RuleTiming) : Option RuleTiming :=
  timings.foldl (fun old t => some ((old.getD (start t.rule)).add t)) none

/-- The last timing is added to the sum of those before it. -/
@[simp] theorem sum?_concat (timings : List RuleTiming) (t : RuleTiming) :
    sum? (timings ++ [t]) = some (((sum? timings).getD (start t.rule)).add t) := by
  rw [sum?, List.foldl_append]
  rfl

@[simp] theorem sum?_eq_none_iff {timings : List RuleTiming} :
    sum? timings = none ↔ timings = [] := by
  rcases List.eq_nil_or_concat timings with rfl | ⟨front, t, rfl⟩
  · exact iff_of_true rfl rfl
  · rw [List.concat_eq_append, sum?_concat]
    simp

/-- A sum has the time and the number of evaluations of all timings together. -/
theorem totals_of_sum? {timings : List RuleTiming} {t : RuleTiming} (h : sum? timings = some t) :
    t.nanos = (timings.map (·.nanos)).sum ∧ t.evaluations = (timings.map (·.evaluations)).sum := by
  -- a sum takes in its timings from the front, so the induction is on the end of the list
  induction timings using List.reverseRecOn generalizing t with
  | nil => cases h
  | append_singleton timings last ih =>
    rw [sum?_concat] at h
    rw [← Option.some.inj h, List.map_append, List.map_append, List.sum_append, List.sum_append,
      List.map_singleton, List.map_singleton, List.sum_singleton, List.sum_singleton]
    cases hsum : sum? timings with
    | none =>
      rw [sum?_eq_none_iff.1 hsum]
      exact ⟨rfl, rfl⟩
    | some s =>
      rcases ih hsum with ⟨hnanos, hevaluations⟩
      rw [← hnanos, ← hevaluations]
      exact ⟨rfl, rfl⟩

/-! ## One mean -/

/-- A mean is missing where the low bits of the number of evaluations are all zero. -/
theorem average?_eq_none_iff {t : RuleTiming} :
    t.average? = none ↔ 0 < t.evaluations ∧ divisorLimit ∣ t.evaluations := by
  rw [← Option.isNone_iff_eq_none, ← Option.isSome_eq_false_iff, ← Bool.not_eq_true,
    isSome_average?_iff, not_or, not_not, Nat.pos_iff_ne_zero, Nat.dvd_iff_mod_eq_zero]

/-- Otherwise it divides by these bits. -/
theorem average?_of_not_dvd {t : RuleTiming} (hpos : 0 < t.evaluations)
    (h : ¬ divisorLimit ∣ t.evaluations) :
    t.average? = some (t.nanos / (t.evaluations % divisorLimit)) := by
  rw [average?, if_neg (Nat.ne_of_gt hpos), if_neg (mt Nat.dvd_of_mod_eq_zero h)]

/-- Cutting the divisor off at a limit makes a quotient larger, unless nothing is cut off or both
quotients are zero. -/
theorem div_mod_eq_div_iff {n d limit : Nat} (hlimit : 0 < limit) (hrest : 0 < d % limit) :
    n / (d % limit) = n / d ↔ d < limit ∨ n < d % limit := by
  constructor
  · intro heq
    by_contra hnot
    rw [not_or, Nat.not_lt, Nat.not_lt] at hnot
    rcases hnot with ⟨hcut, hn⟩
    -- the whole divisor fits as often as the rest of it, and so the limit fits into the rest
    have hquotient : 0 < n / (d % limit) := Nat.div_pos hn hrest
    have hdivisor : limit + d % limit ≤ d := by
      have hparts := Nat.div_add_mod d limit
      have honce : limit ≤ limit * (d / limit) :=
        Nat.le_mul_of_pos_right limit (Nat.div_pos hcut hlimit)
      omega
    have hlow : n / (d % limit) * (limit + d % limit) ≤ n := by
      calc n / (d % limit) * (limit + d % limit)
          ≤ n / (d % limit) * d := Nat.mul_le_mul_left _ hdivisor
        _ = n / d * d := by rw [heq]
        _ ≤ n := Nat.div_mul_le_self n d
    have hhigh : n < (n / (d % limit) + 1) * (d % limit) :=
      (Nat.div_lt_iff_lt_mul hrest).1 (Nat.lt_succ_self _)
    have hlimitLe : limit ≤ n / (d % limit) * limit := Nat.le_mul_of_pos_left limit hquotient
    have hrestLt : d % limit < limit := Nat.mod_lt d hlimit
    rw [Nat.mul_add] at hlow
    rw [Nat.add_mul, Nat.one_mul] at hhigh
    omega
  · rintro (hsmall | hn)
    · -- nothing is cut off
      rw [Nat.mod_eq_of_lt hsmall]
    · -- both quotients are zero
      rw [Nat.div_eq_of_lt hn, Nat.div_eq_of_lt (Nat.lt_of_lt_of_le hn (Nat.mod_le d limit))]

theorem divisorLimit_pos : 0 < divisorLimit := by decide

/-- The mean of a rule that has been evaluated is the quotient, rounded down, if and only if the
number of evaluations is below the limit, or the time is that short that both come to zero. -/
theorem average?_eq_div_iff {t : RuleTiming} (hpos : 0 < t.evaluations) :
    t.average? = some (t.nanos / t.evaluations) ↔
      t.evaluations < divisorLimit ∨ t.nanos < t.evaluations % divisorLimit := by
  by_cases hdvd : divisorLimit ∣ t.evaluations
  · -- no mean at all, and neither of the conditions holds
    have hnone : t.average? = none := average?_eq_none_iff.2 ⟨hpos, hdvd⟩
    have hle : divisorLimit ≤ t.evaluations := Nat.le_of_dvd hpos hdvd
    rw [hnone, Nat.mod_eq_zero_of_dvd hdvd]
    refine iff_of_false nofun ?_
    omega
  · have hrest : 0 < t.evaluations % divisorLimit :=
      Nat.pos_of_ne_zero (mt Nat.dvd_of_mod_eq_zero hdvd)
    rw [average?_of_not_dvd hpos hdvd, Option.some_inj, div_mod_eq_div_iff divisorLimit_pos hrest]

/-- A mean is never too small. -/
theorem div_le_of_average? {t : RuleTiming} (hpos : 0 < t.evaluations) {mean : Nat}
    (h : t.average? = some mean) : t.nanos / t.evaluations ≤ mean := by
  by_cases hdvd : divisorLimit ∣ t.evaluations
  · rw [average?_eq_none_iff.2 ⟨hpos, hdvd⟩] at h
    cases h
  · have hrest : 0 < t.evaluations % divisorLimit :=
      Nat.pos_of_ne_zero (mt Nat.dvd_of_mod_eq_zero hdvd)
    rw [average?_of_not_dvd hpos hdvd] at h
    rw [← Option.some.inj h]
    exact Nat.div_le_div_left (Nat.mod_le _ _) hrest

end RuleTiming

namespace BatchReport

/-! ## What a batch has grown from -/

/-- What the reports of some units say about a rule, one after the other. -/
def timingsOf (rule : String) (reports : List UnitReport) : List RuleTiming :=
  reports.filterMap (·.timings.get? rule)

/-- The time of a rule in some reports, in nanoseconds. -/
def spent (rule : String) (reports : List UnitReport) : Nat :=
  ((timingsOf rule reports).map (·.nanos)).sum

/-- How often a rule has been evaluated in some reports. -/
def asked (rule : String) (reports : List UnitReport) : Nat :=
  ((timingsOf rule reports).map (·.evaluations)).sum

@[simp] theorem timingsOf_concat (rule : String) (reports : List UnitReport) (r : UnitReport) :
    timingsOf rule (reports ++ [r]) = timingsOf rule reports ++ (r.timings.get? rule).toList := by
  rw [timingsOf, List.filterMap_append]
  rfl

/-- A batch that has grown is one that has taken in reports one after the other. -/
theorem exists_reports_of_grown {b : BatchReport} (h : Grown b) :
    ∃ reports : List UnitReport, b = reports.foldl addReport empty := by
  induction h with
  | empty => exact ⟨[], rfl⟩
  | addReport r _ ih =>
    rcases ih with ⟨reports, rfl⟩
    exact ⟨reports ++ [r], by rw [List.foldl_append]; rfl⟩
  | merge _ _ ha hb =>
    -- the reports of both batches, one after the other
    rcases ha with ⟨reports, rfl⟩
    rcases hb with ⟨more, rfl⟩
    refine ⟨reports ++ more, ?_⟩
    rw [← mergeAll_alone, ← mergeAll_alone, ← mergeAll_append, ← List.map_append, mergeAll_alone]

/-- What two tables of timings have for a rule is added up. -/
@[simp] theorem get?_mergeTimings (s t : Timings) (rule : String) :
    (mergeTimings s t).get? rule =
      ((t.get? rule).map fun new =>
        ((s.get? rule).getD (.start new.rule)).add new).or (s.get? rule) :=
  SortedMap.get?_mergeWith _ s t rule

/-- What a batch has for a rule is the sum of what the reports say about it. -/
theorem get?_timings_foldl (rule : String) (reports : List UnitReport) :
    (reports.foldl addReport empty).timings.get? rule =
      RuleTiming.sum? (timingsOf rule reports) := by
  induction reports using List.reverseRecOn with
  | nil => rfl
  | append_singleton reports r ih =>
    have hstep : ∀ b : BatchReport, (b.addReport r).timings = mergeTimings b.timings r.timings :=
      fun _ => rfl
    rw [List.foldl_append, List.foldl_cons, List.foldl_nil, hstep, get?_mergeTimings, ih,
      timingsOf_concat]
    cases r.timings.get? rule with
    | none =>
      rw [Option.toList_none, List.append_nil]
      rfl
    | some t =>
      rw [Option.toList_some, RuleTiming.sum?_concat]
      rfl

/-- A rule that has been evaluated is among the timings. -/
theorem exists_timing_of_asked {rule : String} {reports : List UnitReport}
    (h : 0 < asked rule reports) :
    ∃ t, (reports.foldl addReport empty).timings.get? rule = some t := by
  rw [get?_timings_foldl, ← Option.isSome_iff_exists, Option.isSome_iff_ne_none, ne_eq,
    RuleTiming.sum?_eq_none_iff]
  intro hnil
  rw [asked, hnil] at h
  exact absurd h (Nat.lt_irrefl 0)

/-! ## Means and tables -/

/-- The table of a batch is missing if the number of evaluations of some rule is a multiple of the
limit, other than zero. -/
theorem timingTable?_eq_none_iff (reports : List UnitReport) :
    timingTable? (reports.foldl addReport empty).timings = none ↔
      ∃ rule, 0 < asked rule reports ∧ RuleTiming.divisorLimit ∣ asked rule reports := by
  rw [← Option.not_isSome_iff_eq_none, isSome_timingTable?_iff]
  push Not
  constructor
  · -- a row without a mean is that of a rule with such a number
    rintro ⟨t, ht, hnone⟩
    rcases List.mem_map.1 ht with ⟨⟨rule, t⟩, hentry, rfl⟩
    have hsum := get?_timings_foldl rule reports ▸ SortedMap.mem_toList_iff.1 hentry
    have heq : t.evaluations = asked rule reports := (RuleTiming.totals_of_sum? hsum).2
    refine ⟨rule, ?_⟩
    rw [← heq]
    exact RuleTiming.average?_eq_none_iff.1 (Option.not_isSome_iff_eq_none.1 hnone)
  · -- such a rule has a row, and that is without a mean
    rintro ⟨rule, hpos, hdvd⟩
    rcases exists_timing_of_asked hpos with ⟨t, ht⟩
    have hsum := get?_timings_foldl rule reports ▸ ht
    have heq : t.evaluations = asked rule reports := (RuleTiming.totals_of_sum? hsum).2
    refine ⟨t, List.mem_map.2 ⟨(rule, t), SortedMap.mem_toList_iff.2 ht, rfl⟩, ?_⟩
    rw [ne_eq, Option.not_isSome_iff_eq_none, RuleTiming.average?_eq_none_iff, heq]
    exact ⟨hpos, hdvd⟩

/-- The timings of a batch, however it has grown, are sums over all the reports in it. The mean time
of a rule that has been evaluated is the quotient of these sums, rounded down, if and only if the
rule has been evaluated less often than the limit of divisors or the mean comes to zero. Otherwise
it is larger, or there is none, and then there is no table of the timings either. -/
theorem means_of_grown {b : BatchReport} (h : Grown b) :
    ∃ reports : List UnitReport, b = reports.foldl addReport empty ∧
      (∀ rule t, b.timings.get? rule = some t →
        t.nanos = spent rule reports ∧ t.evaluations = asked rule reports ∧
        (0 < t.evaluations →
          (t.average? = some (t.nanos / t.evaluations) ↔
            t.evaluations < RuleTiming.divisorLimit ∨
            t.nanos < t.evaluations % RuleTiming.divisorLimit) ∧
          (t.average? = none ↔ RuleTiming.divisorLimit ∣ t.evaluations) ∧
          ∀ mean, t.average? = some mean → t.nanos / t.evaluations ≤ mean)) ∧
      (timingTable? b.timings = none ↔
        ∃ rule, 0 < asked rule reports ∧ RuleTiming.divisorLimit ∣ asked rule reports) := by
  rcases exists_reports_of_grown h with ⟨reports, rfl⟩
  refine ⟨reports, rfl, ?_, timingTable?_eq_none_iff reports⟩
  intro rule t ht
  rw [get?_timings_foldl] at ht
  rcases RuleTiming.totals_of_sum? ht with ⟨hnanos, hevaluations⟩
  refine ⟨hnanos, hevaluations, fun hpos => ⟨RuleTiming.average?_eq_div_iff hpos, ?_, ?_⟩⟩
  · rw [RuleTiming.average?_eq_none_iff, and_iff_right hpos]
  · intro mean hmean
    exact RuleTiming.div_le_of_average? hpos hmean

/-- A unit with one rule that was evaluated some times and found nothing, at one nanosecond each. -/
def busyUnit (times : Nat) : UnitReport :=
  ⟨⟨"A.java"⟩, [], [], times, .ofList [("r", ⟨"r", times, times, 0⟩)]⟩

/-- Two units of which each has one rule, evaluated some times. -/
def busyPair (times more : Nat) : BatchReport :=
  (alone (busyUnit times)).merge (alone (busyUnit more))

/-- Both units are taken in and merged. -/
theorem grown_busyPair (times more : Nat) : Grown (busyPair times more) :=
  .merge (.addReport _ .empty) (.addReport _ .empty)

/-- Half of the limit and one less than that stay below the limit together. -/
theorem means_busyPair :
    (busyPair (2 ^ 31) (2 ^ 31 - 1)).timings.get? "r" = some ⟨"r", 2 ^ 32 - 1, 2 ^ 32 - 1, 0⟩ ∧
      (⟨"r", 2 ^ 32 - 1, 2 ^ 32 - 1, 0⟩ : RuleTiming).average? = some 1 := by
  have hget : (busyPair (2 ^ 31) (2 ^ 31 - 1)).timings.get? "r" =
      some ⟨"r", 2 ^ 32 - 1, 2 ^ 32 - 1, 0⟩ := by
    decide +kernel
  rcases means_of_grown (grown_busyPair (2 ^ 31) (2 ^ 31 - 1)) with ⟨reports, -, hmeans, -⟩
  rcases hmeans "r" _ hget with ⟨-, -, hmean⟩
  exact ⟨hget, (hmean (by decide)).1.2 (.inl (by decide))⟩

/-- The numbers of a batch fit into 64 bits, and its times into that many seconds. -/
structure Bounded (b : BatchReport) : Prop where
  counters : ∀ n ∈ [b.files, b.filesWithErrors, b.filesWithWarnings, b.callSites, b.errors,
    b.warnings, b.infos], n < wordLimit
  timings : ∀ t ∈ b.timings.values,
    t.nanos < wordLimit * nanosPerSecond ∧ t.evaluations < wordLimit ∧ t.hits < wordLimit

instance (b : BatchReport) : Decidable (Bounded b) :=
  decidable_of_iff (_ ∧ _) ⟨fun h => ⟨h.1, h.2⟩, fun h => ⟨h.counters, h.timings⟩⟩

/-- One evaluation beyond the limit makes a mean that is too large, and at the limit itself there is
no table. -/
theorem means_wrong_busyPair :
    (¬ ∀ b, Grown b → Bounded b → ∀ t ∈ b.timings.values, 0 < t.evaluations →
      t.average? = some (t.nanos / t.evaluations)) ∧
    ¬ ∀ b, Grown b → Bounded b → (timingTable? b.timings).isSome = true := by
  constructor
  · intro hmeans
    have hmean := hmeans (busyPair (2 ^ 31) (2 ^ 31 + 1)) (grown_busyPair _ _) (by decide +kernel)
      ⟨"r", 2 ^ 32 + 1, 2 ^ 32 + 1, 0⟩ (by decide +kernel) (by decide)
    exact absurd hmean (by decide)
  · intro htables
    have htable := htables (busyPair (2 ^ 31) (2 ^ 31)) (grown_busyPair _ _) (by decide +kernel)
    have hmean := isSome_timingTable?_iff.1 htable ⟨"r", 2 ^ 32, 2 ^ 32, 0⟩ (by decide +kernel)
    exact absurd hmean (by decide)

end BatchReport

end CallLint
