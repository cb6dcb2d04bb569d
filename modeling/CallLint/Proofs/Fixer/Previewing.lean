import Mathlib.Data.List.Perm.Basic
import CallLint.Proofs.Rounding.SafeFixes

/-!
# What is shown and what is applied

Fixes can be shown instead of being applied. All fixes that the settings admit are shown. What is
applied is less: a fix may fail because it does not go together with others or with the source, and
the fixes of a file may write what is there already.

* `Fixer.showing`, `Fixer.running`: a fixer that shows, and one that applies, with the same
  findings.
* `Fixer.pending_perm`: what becomes of the fixes that are shown.
* `Fixer.settled_iff`: when all fixes of a file are applied.
* `Fixer.shown_and_applied`: all of it, and when the fixes that are shown are those that are
  applied.
-/

namespace CallLint.Fixer

/-- A fixer that shows the fixes of some findings, with or without those that are not safe. -/
def showing (risky : Bool) (ds : List Diagnostic) : Fixer :=
  ((empty.withMode .showOnly).withRisky risky).collect ds

/-- A fixer that applies the fixes of some findings, with or without those that are not safe. -/
def running (risky : Bool) (ds : List Diagnostic) : Fixer :=
  ((empty.withMode .safeOnly).withRisky risky).collect ds

section Settings

variable (risky : Bool) (ds : List Diagnostic)

@[simp] theorem mode_showing : (showing risky ds).mode = .showOnly := by
  simp [showing]

/-- A fixer that applies does not only show. -/
theorem mode_running : (running risky ds).mode ≠ .showOnly := by
  cases risky <;> simp [running]

/-- In every mode but that of all fixes, the setting decides on the fixes that are not safe. -/
theorem admits_of_setting {mode : FixMode} (h : mode ≠ .all) (fix : Fix) :
    (((empty.withMode mode).withRisky risky).collect ds).admits fix =
      (fix.safety ≠ .displayOnly && (fix.safety ≠ .risky || risky)) := by
  rw [admits, mode_collect, includeRisky_collect]
  -- the mode of all fixes is the only one that does not ask for the setting
  cases mode with
  | all => exact absurd rfl h
  | safeOnly | diff | showOnly => cases fix.safety <;> cases risky <;> rfl

/-- So the fixes that are admitted are those that are when fixes are applied. -/
theorem admits_eq_running {mode : FixMode} (h : mode ≠ .all) :
    (((empty.withMode mode).withRisky risky).collect ds).admits = (running risky ds).admits := by
  funext fix
  rw [running, admits_of_setting risky ds h, admits_of_setting risky ds (by decide)]

/-- In every mode the findings are collected alike. -/
theorem collected_eq_running (mode : FixMode) :
    (((empty.withMode mode).withRisky risky).collect ds).byFile = (running risky ds).byFile ∧
    (((empty.withMode mode).withRisky risky).collect ds).needsReview =
      (running risky ds).needsReview := by
  simp [running]

/-- A fixer that shows and one that applies have the same fixes before them. -/
theorem pending_showing : (showing risky ds).pending = (running risky ds).pending := by
  rw [pending, pending, showing, admits_eq_running risky ds (by decide),
    (collected_eq_running risky ds _).1]

end Settings

/-! ## The fixes of all files -/

/-- The fixes that are applied, or are shown where nothing is changed. -/
def applied (f : Fixer) (units : List SourceUnit) : List Fix :=
  f.byFile.toList.flatMap fun e => (f.fate units e).used

/-- The fixes that do not go together with others, or with the source, or have no unit. -/
def failing (f : Fixer) (units : List SourceUnit) : List Fix :=
  f.byFile.toList.flatMap fun e => (f.fate units e).failed

/-- The fixes of files where all accepted fixes together write what is there already. -/
def idle (f : Fixer) (units : List SourceUnit) : List Fix :=
  f.byFile.toList.flatMap fun e => (f.fate units e).idle

/-- Whether there is a unit for each file with fixes. -/
def Housed (f : Fixer) (units : List SourceUnit) : Prop :=
  ∀ entry ∈ f.byFile.toList, ∃ u, units.find? (·.path.same entry.1) = some u

/-- Whether there is a unit for the file of each fix that some findings contribute. -/
def HaveUnits (ds : List Diagnostic) (units : List SourceUnit) : Prop :=
  ∀ fix ∈ ds.filterMap contributed?, ∃ u ∈ units, u.path.same fix.file = true

instance (ds : List Diagnostic) (units : List SourceUnit) : Decidable (HaveUnits ds units) :=
  inferInstanceAs (Decidable (∀ fix ∈ ds.filterMap contributed?, ∃ u ∈ units,
    u.path.same fix.file = true))

/-- The files are those that the findings are in. -/
theorem housed_collect {f : Fixer} (hnone : f.byFile = ∅) {ds : List Diagnostic}
    {units : List SourceUnit} (h : HaveUnits ds units) : (f.collect ds).Housed units := by
  intro entry hentry
  rw [byFile_collect, hnone] at hentry
  rcases key_of_mem_gathered hentry with ⟨fix, hfix, hkey⟩ | ⟨old, hold, -⟩
  · rw [hkey]
    exact Option.isSome_iff_exists.1 (List.find?_isSome.2 (h fix hfix))
  · cases hold

variable {f : Fixer} {units : List SourceUnit}

/-- What is shown is admitted, file by file. -/
theorem pending_perm_queue (f : Fixer) :
    f.pending.Perm (f.byFile.toList.flatMap fun e => f.queue e.2) := by
  have hflat : f.byFile.values.flatten.filter f.admits =
      f.byFile.toList.flatMap fun e => e.2.filter f.admits := by
    rw [SortedMap.values, ← List.flatMap_def, List.filter_flatMap]
  have hsorted : f.pending.Perm (f.byFile.values.flatten.filter f.admits) := List.mergeSort_perm _ _
  rw [hflat] at hsorted
  refine hsorted.trans (List.Perm.flatMap_left _ fun e _ => ?_)
  exact (List.mergeSort_perm _ _).symm

/-- Where fixes are applied, an admitted fix of a file with a unit is used, or fails, or is idle. -/
theorem fate_perm_queue (hmode : f.mode ≠ .showOnly) {entry : Path × List Fix} {u : SourceUnit}
    (hunit : units.find? (·.path.same entry.1) = some u) :
    ((f.fate units entry).used ++ (f.fate units entry).failed ++ (f.fate units entry).idle).Perm
      (f.queue entry.2) := by
  have haccept :
      (f.accepted u.source entry.2 ++ (f.dropped u.source entry.2).map (·.1)).Perm
        (f.queue entry.2) :=
    accept_perm u.source [] (f.queue entry.2)
  simp only [fate, hunit, if_neg hmode]
  split
  · -- what is accepted is idle
    rw [List.nil_append]
    exact List.perm_append_comm.trans haccept
  · rw [List.append_nil]
    exact haccept

/-- What is shown is applied, or fails, or is idle. -/
theorem pending_perm (hmode : f.mode ≠ .showOnly) (hunits : f.Housed units) :
    f.pending.Perm (f.applied units ++ f.failing units ++ f.idle units) := by
  have hfates :
      (f.byFile.toList.flatMap fun e => f.queue e.2).Perm (f.byFile.toList.flatMap fun e =>
        (f.fate units e).used ++ (f.fate units e).failed ++ (f.fate units e).idle) := by
    refine List.Perm.flatMap_left _ fun e he => ?_
    rcases hunits e he with ⟨u, hunit⟩
    exact (fate_perm_queue hmode hunit).symm
  -- fate by fate over all files, instead of file by file
  have hsplit :
      (f.applied units ++ f.failing units ++ f.idle units).Perm (f.byFile.toList.flatMap fun e =>
        (f.fate units e).used ++ (f.fate units e).failed ++ (f.fate units e).idle) :=
    ((List.flatMap_append_perm _ _ _).append_right _).trans (List.flatMap_append_perm _ _ _)
  exact (pending_perm_queue f).trans (hfates.trans hsplit.symm)

/-- Where fixes are only shown, each one of them counts as applied. -/
theorem applied_of_showOnly (hmode : f.mode = .showOnly) (hunits : f.Housed units) :
    (f.applyAll units).applied = f.pending.length := by
  have hfates : (f.byFile.toList.flatMap fun e => f.queue e.2) =
      f.byFile.toList.flatMap fun e => (f.fate units e).used := by
    refine List.flatMap_congr fun e he => ?_
    rcases hunits e he with ⟨u, hunit⟩
    simp only [fate, hunit, if_pos hmode]
  rw [(counted_applyAll f units).applied, (pending_perm_queue f).length_eq, hfates]

/-- The new texts are those that the applied fixes of a file write to the unit with its path. -/
theorem mem_outputs_iff (hmode : f.mode ≠ .showOnly) {p : Path} {new : String} :
    (p, new) ∈ (f.applyAll units).outputs.toList ↔
      ∃ fixes u, (p, fixes) ∈ f.byFile.toList ∧ units.find? (·.path.same p) = some u ∧
        (f.fate units (p, fixes)).used ≠ [] ∧
        (FixPlan.merge ((f.fate units (p, fixes)).used.map (·.plan))).apply u.source = .ok new := by
  -- the fixes of a file are used if what they write is new
  have hused : ∀ {fixes : List Fix} {u : SourceUnit}, units.find? (·.path.same p) = some u →
      (f.fate units (p, fixes)).used =
        if f.written u.source fixes = u.source then [] else f.accepted u.source fixes := by
    intro fixes u hunit
    simp only [fate, hunit, if_neg hmode]
    split <;> rfl
  constructor
  · intro hnew
    rcases (texts_applyAll f units).exists_rewrite hnew with ⟨fixes, u, hentry, hrewrite⟩
    rcases rewrite?_eq_some_iff.1 hrewrite with ⟨-, -, hunit, hwritten, hdiffers⟩
    dsimp only at hunit hwritten hdiffers
    rw [← hwritten] at hdiffers ⊢
    refine ⟨fixes, u, hentry, hunit, ?_⟩
    rw [hused hunit, if_neg hdiffers]
    exact ⟨fun hnil => hdiffers (written_of_accepted_eq_nil hnil), apply_written f u.source fixes⟩
  · rintro ⟨fixes, u, hentry, hunit, hsome, happly⟩
    rw [hused hunit] at hsome happly
    split at hsome
    · exact absurd rfl hsome
    · next hdiffers =>
      rw [if_neg hdiffers, apply_written] at happly
      have hrewrite : f.rewrite? units (p, fixes) = some ⟨p, u, new⟩ :=
        rewrite?_eq_some_iff.2 ⟨hmode, rfl, hunit, Except.ok.inj happly,
          Except.ok.inj happly ▸ hdiffers⟩
      exact (texts_applyAll f units).mem_outputs hentry hrewrite

/-! ## Files whose fixes are all applied -/

/-- Whether the admitted fixes of a file can be applied to a source all together, and make a new
text of it. -/
def Settled (f : Fixer) (source : String) (fixes : List Fix) : Prop :=
  f.queue fixes = [] ∨
    ∃ new, (FixPlan.merge ((f.queue fixes).map (·.plan))).apply source = .ok new ∧ new ≠ source

/-- In such files, and in no others, no admitted fix fails or is idle. -/
theorem settled_iff (hmode : f.mode ≠ .showOnly) {entry : Path × List Fix} {u : SourceUnit}
    (hunit : units.find? (·.path.same entry.1) = some u) :
    f.Settled u.source entry.2 ↔
      (f.fate units entry).failed = [] ∧ (f.fate units entry).idle = [] := by
  have hfate : (f.fate units entry).failed = (f.dropped u.source entry.2).map (·.1) ∧
      (f.fate units entry).idle =
        if f.written u.source entry.2 = u.source then f.accepted u.source entry.2 else [] := by
    simp only [fate, hunit, if_neg hmode]
    split <;> exact ⟨rfl, rfl⟩
  rw [hfate.1, hfate.2, List.map_eq_nil_iff]
  have hwritten := apply_written f u.source entry.2
  constructor
  · rintro (hnone | ⟨new, hnew, hdiffers⟩)
    · rw [dropped, accepted, hnone, accept]
      exact ⟨rfl, ite_self _⟩
    · -- they go together, so the pass accepts all of them
      have hall : accept u.source [] (f.queue entry.2) = (f.queue entry.2, []) :=
        accept_of_together (FixPlan.validate_eq_ok_iff.2 ⟨new, hnew⟩)
      have haccepted : f.accepted u.source entry.2 = f.queue entry.2 := congrArg Prod.fst hall
      rw [haccepted, hnew, Except.ok.injEq] at hwritten
      exact ⟨congrArg Prod.snd hall, if_neg (hwritten ▸ hdiffers)⟩
  · -- none is dropped, so what is accepted is the queue
    rintro ⟨hdropped, hidle⟩
    have haccepted : f.accepted u.source entry.2 = f.queue entry.2 :=
      accepted_of_dropped_eq_nil hdropped
    rw [haccepted] at hidle hwritten
    split at hidle
    · exact .inl hidle
    · next hdiffers => exact .inr ⟨_, hwritten, hdiffers⟩

/-- The same of all files. -/
theorem forall_settled_iff (hmode : f.mode ≠ .showOnly) (hunits : f.Housed units) :
    (∀ entry ∈ f.byFile.toList, ∀ u, units.find? (·.path.same entry.1) = some u →
        f.Settled u.source entry.2) ↔
      f.failing units = [] ∧ f.idle units = [] := by
  rw [failing, idle, List.flatMap_eq_nil_iff, List.flatMap_eq_nil_iff, ← forall₂_and]
  refine forall₂_congr fun entry hentry => ?_
  rcases hunits entry hentry with ⟨u, hunit⟩
  rw [← settled_iff hmode hunit]
  constructor
  · intro hsettled
    exact hsettled u hunit
  · intro hsettled v hv
    rw [hunit, Option.some.injEq] at hv
    rwa [← hv]

/-! ## Shown and applied -/

/-- Whether the fixes that are shown are those that are applied, and are counted like them. -/
def ShowsWhatApplies (risky : Bool) (ds : List Diagnostic) (units : List SourceUnit) : Prop :=
  (showing risky ds).pending.Perm ((running risky ds).applied units) ∧
    ((showing risky ds).applyAll units).applied = ((running risky ds).applyAll units).applied

section Findings

variable (risky : Bool) {ds : List Diagnostic} {units : List SourceUnit}
  (hunits : HaveUnits ds units)

include hunits

/-- What becomes of the fixes that are shown. -/
theorem pending_showing_perm :
    (showing risky ds).pending.Perm ((running risky ds).applied units ++
      (running risky ds).failing units ++ (running risky ds).idle units) := by
  rw [pending_showing]
  exact pending_perm (mode_running risky ds) (housed_collect rfl hunits)

/-- All fixes that are shown are counted as applied. -/
theorem applied_showing :
    ((showing risky ds).applyAll units).applied = (showing risky ds).pending.length :=
  applied_of_showOnly (mode_showing risky ds) (housed_collect rfl hunits)

/-- When the fixes that are shown are those that are applied. -/
theorem showsWhatApplies_iff : ShowsWhatApplies risky ds units ↔
    ∀ entry ∈ (running risky ds).byFile.toList, ∀ u, units.find? (·.path.same entry.1) = some u →
      (running risky ds).Settled u.source entry.2 := by
  have hperm := pending_showing_perm risky hunits
  have hlength := hperm.length_eq
  rw [List.length_append, List.length_append] at hlength
  -- both sides say that no fix fails or is idle
  rw [forall_settled_iff (mode_running risky ds) (housed_collect rfl hunits)]
  constructor
  · rintro ⟨happlied, -⟩
    have hsame := happlied.length_eq
    exact ⟨List.length_eq_zero_iff.1 (by omega), List.length_eq_zero_iff.1 (by omega)⟩
  · rintro ⟨hfailing, hidle⟩
    rw [hfailing, hidle, List.append_nil, List.append_nil] at hperm
    refine ⟨hperm, ?_⟩
    rw [applied_showing risky hunits, hperm.length_eq,
      (counted_applyAll (running risky ds) units).applied]
    rfl

/-- All fixes that the settings admit are shown and counted as applied. When they are applied, some
are used, and the new texts are what these write; the others fail, or are idle. So the fixes that
are shown are those that are applied exactly if the admitted fixes of each file can be applied to
its unit all together, and make a new text of it. -/
theorem shown_and_applied :
    (showing risky ds).pending.Perm ((running risky ds).applied units ++
      (running risky ds).failing units ++ (running risky ds).idle units) ∧
    ((showing risky ds).applyAll units).applied = (showing risky ds).pending.length ∧
    ((running risky ds).applyAll units).applied = ((running risky ds).applied units).length ∧
    ((running risky ds).applyAll units).failed = ((running risky ds).failing units).length ∧
    (∀ p new, (p, new) ∈ ((running risky ds).applyAll units).outputs.toList ↔
      ∃ fixes u, (p, fixes) ∈ (running risky ds).byFile.toList ∧
        units.find? (·.path.same p) = some u ∧
        ((running risky ds).fate units (p, fixes)).used ≠ [] ∧
        (FixPlan.merge (((running risky ds).fate units (p, fixes)).used.map (·.plan))).apply
          u.source = .ok new) ∧
    (ShowsWhatApplies risky ds units ↔
      ∀ entry ∈ (running risky ds).byFile.toList, ∀ u, units.find? (·.path.same entry.1) = some u →
        (running risky ds).Settled u.source entry.2) := by
  have hcounted := counted_applyAll (running risky ds) units
  exact ⟨pending_showing_perm risky hunits, applied_showing risky hunits, hcounted.applied,
    hcounted.failed, fun p new => mem_outputs_iff (mode_running risky ds),
    showsWhatApplies_iff risky hunits⟩

end Findings

/-! ## Calls apart and a call in a call -/

/-- Findings with fixes in two files. -/
def apartFindings : List Diagnostic :=
  [offer "A.java" (.replacing ⟨2, 3⟩ "y"), offer "B.java" (.replacing ⟨0, 1⟩ "h")]

/-- Their fixes are shown and applied. -/
theorem shown_and_applied_apart :
    HaveUnits apartFindings knownUnits ∧ ShowsWhatApplies false apartFindings knownUnits := by
  have hunits : HaveUnits apartFindings knownUnits := by decide
  have hfiles : (running false apartFindings).byFile.toList =
      [(⟨"A.java"⟩, [⟨⟨"A.java"⟩, ⟨⟨"A.java"⟩, 1, 1, 1⟩, .replacing ⟨2, 3⟩ "y", "r"⟩]),
        (⟨"B.java"⟩, [⟨⟨"B.java"⟩, ⟨⟨"B.java"⟩, 1, 1, 1⟩, .replacing ⟨0, 1⟩ "h", "r"⟩])] := by
    decide
  obtain ⟨-, -, -, -, -, hshows⟩ := shown_and_applied false hunits
  refine ⟨hunits, ?_⟩
  rw [hshows, hfiles, List.forall_mem_cons, List.forall_mem_singleton]
  constructor
  · intro u hunit
    obtain rfl : (⟨⟨"A.java"⟩, "f(x);", ∅, []⟩ : SourceUnit) = u := Option.some.inj hunit
    exact .inr ⟨"f(y);", by decide +kernel, by decide⟩
  · intro u hunit
    obtain rfl : (⟨⟨"B.java"⟩, "g();", ∅, []⟩ : SourceUnit) = u := Option.some.inj hunit
    exact .inr ⟨"h();", by decide +kernel, by decide⟩

open RoundRule (nestedCalls roundings_nestedCalls removed_nestedCalls)

/-- What is reported about a call in a call. -/
def nestedFindings : List Diagnostic :=
  ((Engine.ofConfig .standard).checkUnits [nestedCalls]).diagnostics

/-- The fixes of the unit are those that are applied. -/
theorem byFile_running_nested : (running false nestedFindings).byFile =
    ([nestedCalls].flatMap (RoundRule.fixes (.ofConfig .standard))).foldl gather ∅ := by
  rw [running, byFile_collect, nestedFindings, Engine.diagnostics_checkUnits,
    List.filterMap_flatMap]
  rfl

/-- The fix of the inner call fails. -/
theorem failed_running_nested :
    ((running false nestedFindings).applyAll [nestedCalls]).failed = 1 := by
  have halone := RoundRule.alone_ofConfig .standard
  have hspans : ∀ r ∈ RoundRule.roundings (.ofConfig .standard) nestedCalls,
      r.span.isEmpty = false := by
    rw [roundings_nestedCalls]
    decide
  have hown : ∀ u ∈ [nestedCalls], ∀ fix ∈ RoundRule.fixes (.ofConfig .standard) u,
      fix.file = u.path :=
    fun u _ fix hfix => RoundRule.file_of_mem_fixes halone hfix
  have hdropped := RoundRule.length_dropped_fixes halone hspans nestedFindings
  rw [removed_nestedCalls, roundings_nestedCalls] at hdropped
  have hfailed := failed_applyAll (mode_running false nestedFindings) (List.pairwise_singleton _ _)
    hown byFile_running_nested
  rw [List.flatMap_singleton] at hfailed
  rw [hfailed]
  exact Nat.add_right_cancel hdropped

/-- Both fixes are shown, and one of them is applied. -/
theorem not_showsWhatApplies_nested :
    HaveUnits nestedFindings [nestedCalls] ∧
      ¬ ShowsWhatApplies false nestedFindings [nestedCalls] := by
  have hunits : HaveUnits nestedFindings [nestedCalls] := by
    intro fix hfix
    rw [nestedFindings, Engine.diagnostics_checkUnits, List.filterMap_flatMap] at hfix
    rcases List.mem_flatMap.1 hfix with ⟨u, hu, hfix⟩
    refine ⟨u, hu, ?_⟩
    rw [RoundRule.file_of_mem_fixes (RoundRule.alone_ofConfig .standard) hfix, Path.same,
      decide_eq_true_eq]
  refine ⟨hunits, fun h => ?_⟩
  -- so the fixes that are shown are more than those that are applied
  have hshown := (pending_showing_perm false hunits).length_eq
  have hfailing := (counted_applyAll (running false nestedFindings) [nestedCalls]).failed
  have hsame := h.1.length_eq
  rw [failed_running_nested] at hfailing
  change 1 = ((running false nestedFindings).failing [nestedCalls]).length at hfailing
  rw [List.length_append, List.length_append] at hshown
  omega

end CallLint.Fixer
