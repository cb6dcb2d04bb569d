import CallLint.Proofs.Sorted.Map
import CallLint.Report.Batch

/-!
# Laws of merging reports

A batch that takes in the report of a unit is the batch merged with that of the unit alone, and
merging can be grouped in any way. So a batch can be put together from any parts of it, in their
order.

* `merge_assoc`, `merge_empty`, `empty_merge`: the laws. Only the time of the second batch is lost.
* `addReport_eq_merge`: the two ways in which a batch grows are one.
* `mergeAll_append`, `mergeAll_alone`: a batch in parts, and unit by unit.
-/

namespace CallLint

namespace RuleTiming

/-- Timings of one rule can be added in any grouping. -/
theorem add_assoc (s t u : RuleTiming) : (s.add t).add u = s.add (t.add u) := by
  simp only [add, Nat.add_assoc]

/-- A timing on top of nothing is that timing. -/
@[simp] theorem start_add (t : RuleTiming) : (start t.rule).add t = t := by
  simp only [start, add, Nat.zero_add]

end RuleTiming

namespace BatchReport

/-! ## Timings -/

@[simp] theorem mergeTimings_empty (s : Timings) : mergeTimings s ∅ = s :=
  SortedMap.mergeWith_empty _ s

@[simp] theorem empty_mergeTimings (t : Timings) : mergeTimings ∅ t = t :=
  SortedMap.empty_mergeWith RuleTiming.start_add t

/-- Tables of timings can be merged in any grouping. -/
theorem mergeTimings_assoc (s t u : Timings) :
    mergeTimings (mergeTimings s t) u = mergeTimings s (mergeTimings t u) := by
  apply SortedMap.mergeWith_assoc RuleTiming.start_add
  -- the rule of a sum is that of its first timing, whatever is added
  intro old b c
  exact RuleTiming.add_assoc (old.getD (.start b.rule)) b c

/-! ## Batches -/

/-- So can batches. -/
theorem merge_assoc (a b c : BatchReport) : (a.merge b).merge c = a.merge (b.merge c) := by
  simp only [merge, List.append_assoc, Nat.add_assoc, mergeTimings_assoc]

instance : Std.Associative merge := ⟨merge_assoc⟩

/-- The empty batch adds nothing to another one. -/
@[simp] theorem merge_empty (a : BatchReport) : a.merge empty = a := by
  simp [merge, empty]

/-- A batch on top of the empty one is the same but for its time. -/
@[simp] theorem empty_merge (a : BatchReport) : empty.merge a = { a with nanos := 0 } := by
  simp [merge, empty]

/-- The report of a unit as a batch of its own. -/
def alone (r : UnitReport) : BatchReport := empty.addReport r

/-- Taking in a report is merging with a batch of that report alone. -/
theorem addReport_eq_merge (b : BatchReport) (r : UnitReport) :
    b.addReport r = b.merge (alone r) := by
  simp [alone, addReport, merge, empty]

/-! ## Many batches -/

/-- Some batches as one, in their order. -/
def mergeAll (batches : List BatchReport) : BatchReport := batches.foldl merge empty

/-- Batches in two parts are merged part by part. -/
theorem mergeAll_append (batches more : List BatchReport) :
    mergeAll (batches ++ more) = (mergeAll batches).merge (mergeAll more) := by
  calc (batches ++ more).foldl merge empty
      = more.foldl merge (mergeAll batches) := List.foldl_append
    _ = more.foldl merge ((mergeAll batches).merge empty) := by rw [merge_empty]
    _ = (mergeAll batches).merge (mergeAll more) := List.foldl_assoc

/-- Merging the batches of single reports is taking in one report after the other. -/
theorem mergeAll_alone (reports : List UnitReport) :
    mergeAll (reports.map alone) = reports.foldl addReport empty := by
  rw [mergeAll, List.foldl_map]
  congr
  funext b r
  rw [addReport_eq_merge]

end BatchReport

end CallLint
