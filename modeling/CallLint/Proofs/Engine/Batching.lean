import CallLint.Engine
import CallLint.Proofs.Report.Counting

/-!
# Batches

The units of a batch are checked one by one, or by workers if the configuration asks for it, and the
reports of the units are merged. Workers answer in the order of the units, so they change nothing,
and a batch is the merge of its parts.

* `Engine.checkUnitsWith`: a batch that workers may check.
* `Engine.checkUnitsWith_eq`: workers change nothing.
* `Engine.checkUnits_append`: a batch in two parts. `Engine.batches_add_up`: all of it.
-/

namespace CallLint.Engine

/-- A way to check each unit of a list. -/
abbrev Pass := (SourceUnit → BatchReport) → List SourceUnit → List BatchReport

/-- Workers for a number of jobs, if so many can be had. -/
abbrev Workers := Nat → Option Pass

/-- Workers that answer for each unit, in the order of the units. -/
def Workers.keepOrder (workers : Workers) : Prop :=
  ∀ n pass, workers n = some pass → ∀ check units, pass check units = units.map check

/-- The report of a unit as a batch of its own. -/
def checkAlone (e : Engine) (u : SourceUnit) : BatchReport := .alone (e.checkUnit u)

/-- How many units are checked at once on a machine with a number of processors. -/
def jobs (e : Engine) (processors : Nat) : Nat :=
  if 0 < e.config.engine.jobs then e.config.engine.jobs else processors

/-- Checks all units of a batch. Workers do it if the configuration asks for them, there is more
than one unit, and so many workers can be had. -/
def checkUnitsWith (e : Engine) (processors : Nat) (workers : Workers) (units : List SourceUnit) :
    BatchReport :=
  .mergeAll <|
    if e.config.engine.parallel && 1 < units.length then
      match workers (e.jobs processors) with
      | some pass => pass e.checkAlone units
      | none => units.map e.checkAlone
    else units.map e.checkAlone

variable {e : Engine} {processors : Nat} {workers : Workers}

/-- The report of a batch merges those of its units, each on its own. -/
theorem checkUnits_eq_mergeAll (e : Engine) (units : List SourceUnit) :
    e.checkUnits units = .mergeAll (units.map e.checkAlone) := by
  rw [BatchReport.mergeAll, List.foldl_map]
  rfl

/-- Workers that keep the order change nothing. -/
theorem checkUnitsWith_eq (hworkers : workers.keepOrder) (units : List SourceUnit) :
    e.checkUnitsWith processors workers units = e.checkUnits units := by
  have hserial := (checkUnits_eq_mergeAll e units).symm
  unfold checkUnitsWith
  split
  · -- workers may be asked for more than there are; then the units are checked one by one
    cases h : workers (e.jobs processors) with
    | none => exact hserial
    | some pass =>
      dsimp only
      rw [hworkers _ pass h]
      exact hserial
  · exact hserial

/-- A batch takes in the reports of its units one after the other. -/
theorem checkUnits_eq_foldl (e : Engine) (units : List SourceUnit) :
    e.checkUnits units = units.foldl (fun b u => b.addReport (e.checkUnit u)) .empty := by
  have hreports : units.map e.checkAlone = (units.map e.checkUnit).map BatchReport.alone := by
    rw [List.map_map]
    rfl
  rw [checkUnits_eq_mergeAll, hreports, BatchReport.mergeAll_alone, List.foldl_map]

/-- A batch in two parts is both batches merged. -/
theorem checkUnits_append (e : Engine) (units more : List SourceUnit) :
    e.checkUnits (units ++ more) = (e.checkUnits units).merge (e.checkUnits more) := by
  rw [checkUnits_eq_mergeAll, checkUnits_eq_mergeAll, checkUnits_eq_mergeAll, List.map_append,
    BatchReport.mergeAll_append]

/-- The counters of every batch that an engine reports tell the truth. -/
theorem grown_checkUnits (e : Engine) (units : List SourceUnit) : (e.checkUnits units).Grown := by
  have hfold : ∀ b : BatchReport, b.Grown →
      (units.foldl (fun b u => b.addReport (e.checkUnit u)) b).Grown := by
    -- each unit is one more report, and reports keep the counters of any batch true
    induction units with
    | nil => exact fun b hb => hb
    | cons u units ih => exact fun b hb => ih _ (.addReport (e.checkUnit u) hb)
  rw [checkUnits_eq_foldl]
  exact hfold .empty .empty

/-- Batches add up. Whether or not workers check the units, as long as they answer in the order of
the units, the report of a batch is the empty one after it has taken in the reports of the units in
their order, and the report of a batch in two parts is that of the first part merged with that of
the second one. That holds of any reports, whatever times were measured. Merging is associative, and
the empty batch changes nothing on either side, but for the time, which is that of the first
batch. -/
theorem batches_add_up (e : Engine) (processors : Nat) (workers : Workers)
    (hworkers : workers.keepOrder) :
    (∀ units, e.checkUnitsWith processors workers units =
      units.foldl (fun b u => b.addReport (e.checkUnit u)) .empty) ∧
    (∀ units more, e.checkUnitsWith processors workers (units ++ more) =
      (e.checkUnitsWith processors workers units).merge
      (e.checkUnitsWith processors workers more)) ∧
    (∀ units, e.checkUnitsWith processors workers units = e.checkUnits units) ∧
    (∀ reports : List UnitReport, BatchReport.mergeAll (reports.map .alone) =
      reports.foldl BatchReport.addReport .empty) ∧
    (∀ a b c : BatchReport, (a.merge b).merge c = a.merge (b.merge c)) ∧
    ∀ a : BatchReport, a.merge .empty = a ∧ BatchReport.empty.merge a = { a with nanos := 0 } := by
  refine ⟨?_, ?_, checkUnitsWith_eq hworkers, BatchReport.mergeAll_alone, BatchReport.merge_assoc,
    fun a => ⟨a.merge_empty, a.empty_merge⟩⟩
  · intro units
    rw [checkUnitsWith_eq hworkers, checkUnits_eq_foldl]
  · intro units more
    rw [checkUnitsWith_eq hworkers, checkUnitsWith_eq hworkers, checkUnitsWith_eq hworkers,
      checkUnits_append]

/-! ## Workers that take half of the units each -/

/-- Checks the first half of some units apart from the second half. -/
def halves : Pass := fun check units =>
  (units.take (units.length / 2)).map check ++ (units.drop (units.length / 2)).map check

/-- Two workers, whatever number is asked for. -/
def twoWorkers : Workers := fun _ => some halves

/-- Both halves, one behind the other, are all units in their order. -/
theorem keepOrder_twoWorkers : twoWorkers.keepOrder := by
  intro n pass hpass check units
  rw [← Option.some.inj hpass, halves, ← List.map_append, List.take_append_drop]

/-- A rule that warns at every call. -/
def warning : Rule :=
  ⟨.plain "warning" "warns at every call", .all [],
    fun call _ => .ok (.plain "warning" .warning "a call" call.span)⟩

/-- A unit with one call, at a path. -/
def callAt (path : String) : SourceUnit := ⟨⟨path⟩, "f();", ∅, [.leaf .methodCall ⟨0, 3⟩]⟩

/-- Two units that two workers check are as good as two batches. -/
theorem batches_add_up_halves :
    twoWorkers.keepOrder ∧
    (Engine.mk .standard [warning]).checkUnitsWith 2 twoWorkers [callAt "A.java", callAt "B.java"] =
      ((Engine.mk .standard [warning]).checkUnitsWith 2 twoWorkers [callAt "A.java"]).merge
        ((Engine.mk .standard [warning]).checkUnitsWith 2 twoWorkers [callAt "B.java"]) ∧
    ((Engine.mk .standard [warning]).checkUnitsWith 2 twoWorkers
      [callAt "A.java", callAt "B.java"]).filesWithWarnings = 2 := by
  obtain ⟨hreports, hparts, -⟩ :=
    batches_add_up ⟨.standard, [warning]⟩ 2 twoWorkers keepOrder_twoWorkers
  refine ⟨keepOrder_twoWorkers, hparts [callAt "A.java"] [callAt "B.java"], ?_⟩
  rw [hreports]
  decide +kernel

end CallLint.Engine
