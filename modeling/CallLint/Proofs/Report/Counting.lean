import CallLint.Proofs.Report.Merging

/-!
# What the counters of a batch say

A batch keeps counters beside its lists. They are never counted again: a unit adds to them, and so
does another batch. In every batch that comes about in this way they say what the lists say.

* `Truthful`: the counters of a batch agree with its findings. Merging keeps this up.
* `Grown.truthful`: every batch that has grown from the empty one is truthful.
* `Grown.counters`: the counters, and the exit code that is read off them.
-/

namespace CallLint.BatchReport

/-- The batches that grow from the empty one: they take in reports and other such batches. -/
inductive Grown : BatchReport → Prop where
  | empty : Grown empty
  | addReport {b : BatchReport} (r : UnitReport) : Grown b → Grown (b.addReport r)
  | merge {a b : BatchReport} : Grown a → Grown b → Grown (a.merge b)

/-- How many findings of a batch have a severity. -/
def countOf (b : BatchReport) (s : Severity) : Nat := b.diagnostics.countP (·.severity = s)

/-- The counters of a batch agree with its findings, and no more units are counted than there are
units or findings. -/
structure Truthful (b : BatchReport) : Prop where
  errors : b.errors = b.countOf .error
  warnings : b.warnings = b.countOf .warning
  infos : b.infos = b.countOf .info
  filesWithErrors : b.filesWithErrors ≤ min b.files b.errors
  filesWithWarnings : b.filesWithWarnings ≤ min b.files b.warnings

/-! ## Each way to grow -/

/-- Every finding has one of the three severities. -/
theorem countP_severities (ds : List Diagnostic) :
    ds.countP (·.severity = .error) + ds.countP (·.severity = .warning) +
        ds.countP (·.severity = .info) =
      ds.length := by
  induction ds with
  | nil => rfl
  | cons d ds ih =>
    simp only [List.countP_cons, List.length_cons]
    cases d.severity <;> simp <;> omega

/-- A unit counts once at most, and only if there is something that it counts for. -/
theorem one_le_min (n : Nat) : one (0 < n) ≤ min 1 n := by
  unfold one
  split
  · next h => exact Nat.le_min_of_le_of_le (Nat.le_refl 1) (of_decide_eq_true h)
  · exact Nat.zero_le _

/-- The empty batch has nothing to count. -/
theorem truthful_empty : Truthful empty := ⟨rfl, rfl, rfl, Nat.le_refl 0, Nat.le_refl 0⟩

/-- The batch of one unit. What is neither an error nor a warning is counted by taking these away,
and that leaves the rest. -/
theorem truthful_alone (r : UnitReport) : Truthful (alone r) where
  errors := Nat.zero_add _
  warnings := Nat.zero_add _
  infos := by
    have hall := countP_severities r.diagnostics
    show 0 + (r.diagnostics.length - r.diagnostics.countP (·.severity = .error)
      - r.diagnostics.countP (·.severity = .warning)) = r.diagnostics.countP (·.severity = .info)
    omega
  filesWithErrors := by
    show 0 + one (0 < r.diagnostics.countP (·.isError)) ≤
      min (0 + 1) (0 + r.diagnostics.countP (·.isError))
    rw [Nat.zero_add, Nat.zero_add, Nat.zero_add]
    exact one_le_min _
  filesWithWarnings := by
    show 0 + one (0 < r.diagnostics.countP (·.isWarning)) ≤
      min (0 + 1) (0 + r.diagnostics.countP (·.isWarning))
    rw [Nat.zero_add, Nat.zero_add, Nat.zero_add]
    exact one_le_min _

variable {a b : BatchReport}

@[simp] theorem countOf_merge (a b : BatchReport) (s : Severity) :
    (a.merge b).countOf s = a.countOf s + b.countOf s :=
  List.countP_append

/-- The sum of two minima is below both sums. -/
theorem add_le_min_add {k l m n x y : Nat} (hx : x ≤ min k m) (hy : y ≤ min l n) :
    x + y ≤ min (k + l) (m + n) := by
  omega

/-- Both counters and lists are put together, so they still agree. -/
theorem Truthful.merge (ha : Truthful a) (hb : Truthful b) : Truthful (a.merge b) where
  errors := by rw [countOf_merge, ← ha.errors, ← hb.errors]; rfl
  warnings := by rw [countOf_merge, ← ha.warnings, ← hb.warnings]; rfl
  infos := by rw [countOf_merge, ← ha.infos, ← hb.infos]; rfl
  filesWithErrors := add_le_min_add ha.filesWithErrors hb.filesWithErrors
  filesWithWarnings := add_le_min_add ha.filesWithWarnings hb.filesWithWarnings

/-- However a batch has grown, its counters agree with its findings. -/
theorem Grown.truthful (h : Grown b) : Truthful b := by
  induction h with
  | empty => exact truthful_empty
  | addReport r _ ih =>
    -- taking in a report is merging with its own batch
    rw [addReport_eq_merge]
    exact ih.merge (truthful_alone r)
  | merge _ _ ha hb => exact ha.merge hb

/-! ## What is read off the counters -/

@[simp] theorem countOf_pos_iff {s : Severity} :
    0 < b.countOf s ↔ ∃ d ∈ b.diagnostics, d.severity = s := by
  rw [countOf, List.countP_pos_iff]
  simp only [decide_eq_true_eq]

/-- The exit code of a truthful batch, in terms of its lists. -/
theorem Truthful.exitCode (h : Truthful b) :
    b.exitCode =
      if b.defects ≠ [] then 3
      else if ∃ d ∈ b.diagnostics, d.severity = .error then 2
      else if ∃ d ∈ b.diagnostics, d.severity = .warning then 1
      else 0 := by
  have hdefects : b.hasDefects = true ↔ b.defects ≠ [] := by simp [hasDefects]
  have herrors : b.hasErrors = true ↔ ∃ d ∈ b.diagnostics, d.severity = .error := by
    rw [hasErrors, decide_eq_true_eq, h.errors, countOf_pos_iff]
  have hwarnings : b.hasWarnings = true ↔ ∃ d ∈ b.diagnostics, d.severity = .warning := by
    rw [hasWarnings, decide_eq_true_eq, h.warnings, countOf_pos_iff]
  simp only [BatchReport.exitCode, hdefects, herrors, hwarnings]

/-- A batch is clean exactly if its exit code is that of success. -/
theorem isClean_iff (b : BatchReport) : b.isClean = true ↔ b.exitCode = 0 := by
  unfold isClean BatchReport.exitCode hasDefects hasErrors hasWarnings
  -- defects come first, then errors, then warnings; without all three the code is zero
  cases b.defects with
  | cons defect defects => simp
  | nil =>
    rcases Nat.eq_zero_or_pos b.errors with herrors | herrors
    · rcases Nat.eq_zero_or_pos b.warnings with hwarnings | hwarnings
      · simp [herrors, hwarnings]
      · simp [herrors, hwarnings, Nat.ne_of_gt hwarnings]
    · simp [herrors, Nat.ne_of_gt herrors]

/-- The counters of a batch tell the truth, however it has grown. They are the numbers of findings
of each severity, and all findings are counted. No more units are said to have errors than there are
units, or errors, and the same goes for warnings. The exit code is three if an evaluation has
failed, or else says how bad the worst finding is, and a batch is clean exactly if the exit code is
zero. -/
theorem Grown.counters (h : Grown b) :
    (b.errors = b.countOf .error ∧ b.warnings = b.countOf .warning ∧ b.infos = b.countOf .info ∧
      b.errors + b.warnings + b.infos = b.diagnostics.length) ∧
    (b.filesWithErrors ≤ min b.files b.errors ∧ b.filesWithWarnings ≤ min b.files b.warnings) ∧
    (b.exitCode =
      if b.defects ≠ [] then 3
      else if ∃ d ∈ b.diagnostics, d.severity = .error then 2
      else if ∃ d ∈ b.diagnostics, d.severity = .warning then 1
      else 0) ∧
    (b.isClean = true ↔ b.exitCode = 0) := by
  have htrue := h.truthful
  have hall := countP_severities b.diagnostics
  refine ⟨⟨htrue.errors, htrue.warnings, htrue.infos, ?_⟩,
    ⟨htrue.filesWithErrors, htrue.filesWithWarnings⟩, htrue.exitCode, isClean_iff b⟩
  rw [htrue.errors, htrue.warnings, htrue.infos]
  exact hall

/-- A unit with an error and a warning. -/
def badUnit : UnitReport :=
  ⟨⟨"A.java"⟩, [.plain "r" .error "wrong" ⟨0, 3⟩, .plain "r" .warning "odd" ⟨5, 8⟩], [], 2, ∅⟩

/-- A unit with a remark, and with an evaluation that failed. -/
def failedUnit : UnitReport :=
  ⟨⟨"B.java"⟩, [.plain "r" .info "note" ⟨0, 3⟩], [.silent "r" ⟨5, 8⟩], 2, ∅⟩

/-- An error decides the exit code until a failed evaluation is merged in; the findings are counted
as before. -/
theorem counters_mixedBatch :
    Grown (alone badUnit) ∧ (alone badUnit).exitCode = 2 ∧
    Grown ((alone badUnit).merge (empty.addReport failedUnit)) ∧
    ((alone badUnit).merge (empty.addReport failedUnit)).exitCode = 3 ∧
    ((alone badUnit).merge (empty.addReport failedUnit)).errors = 1 ∧
    ((alone badUnit).merge (empty.addReport failedUnit)).isClean = false := by
  have hbad : Grown (alone badUnit) := .addReport badUnit .empty
  have hboth : Grown ((alone badUnit).merge (empty.addReport failedUnit)) :=
    hbad.merge (.addReport failedUnit .empty)
  obtain ⟨-, -, hcode, -⟩ := Grown.counters hbad
  obtain ⟨⟨herrors, -⟩, -, hcodeBoth, hclean⟩ := Grown.counters hboth
  have hthree : ((alone badUnit).merge (empty.addReport failedUnit)).exitCode = 3 :=
    hcodeBoth.trans (by decide)
  refine ⟨hbad, hcode.trans (by decide), hboth, hthree, herrors.trans (by decide), ?_⟩
  rw [← Bool.not_eq_true, hclean, hthree]
  decide

end CallLint.BatchReport
