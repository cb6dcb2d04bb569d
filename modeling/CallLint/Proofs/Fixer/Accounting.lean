import CallLint.Proofs.Fix.Rewriting
import CallLint.Proofs.Fixer.Gathering
import CallLint.Proofs.Fixer.Greedy

/-!
# Every finding counts once

A fixer leaves some findings to a person, and others offer nothing. Each of the remaining ones
offers a fix, and the fix is applied, fails, is skipped, or writes what is there already. Nothing is
counted twice and nothing is forgotten, whichever way the fixes of a file go.

* `Fixer.fate`: what becomes of the fixes of a file. `Fixer.fate_perm`: each of them has one fate.
* `Fixer.rewrite?`: the new text that the fixes of a file make.
* `Fixer.Counted`, `Fixer.Texts`: what the counters and the new texts say after some files. Each
  file keeps this up.
* `Fixer.findings_accounted`: all findings and all counters.
-/

namespace CallLint

namespace Fixer

/-! ## What is written -/

/-- The text that the accepted fixes of a file write. -/
def written (f : Fixer) (source : String) (fixes : List Fix) : String :=
  match (FixPlan.merge ((f.accepted source fixes).map (·.plan))).apply source with
  | .ok new => new
  | .error _ => source

/-- The accepted fixes go together, so they always write a text. -/
theorem apply_written (f : Fixer) (source : String) (fixes : List Fix) :
    (FixPlan.merge ((f.accepted source fixes).map (·.plan))).apply source =
      .ok (f.written source fixes) := by
  obtain ⟨new, hnew⟩ := FixPlan.validate_eq_ok_iff.1
    (together_accept (f.queue fixes) (together_nil source))
  rw [written, accepted, hnew]

/-- Where no fixes are accepted nothing is written. -/
theorem written_of_accepted_eq_nil {f : Fixer} {source : String} {fixes : List Fix}
    (h : f.accepted source fixes = []) : f.written source fixes = source := by
  have hempty : (FixPlan.merge []).splices source.toList = .ok [] :=
    FixPlan.splices_eq_ok_iff.2 ⟨by simp [FixPlan.merge], .nil, List.mergeSort_nil⟩
  have hnew := apply_written f source fixes
  rw [h, List.map_nil, FixPlan.apply_eq_ok_iff] at hnew
  rcases hnew with ⟨l, hl, hout⟩
  rw [hempty] at hl
  cases hl
  rw [← hout, FixPlan.weave, String.ofList_toList]

@[simp] theorem accepted_nil (f : Fixer) (source : String) : f.accepted source [] = [] := by
  rw [accepted, queue, List.filter_nil, List.mergeSort_nil, accept]

variable {f : Fixer}

/-- Where fixes are only shown, all admitted ones count as applied. -/
theorem applyTo_of_showOnly (hmode : f.mode = .showOnly) (file : Path) (source : String)
    (fixes : List Fix) (o : FixOutcome) :
    f.applyTo file source fixes o =
      { o with
        skipped := o.skipped + (fixes.length - (f.queue fixes).length) }.countApplied
          (f.queue fixes) := by
  rw [applyTo, if_pos hmode]

/-- Elsewhere it is written down what the accepted fixes write. -/
theorem applyTo_of_ne_showOnly (hmode : f.mode ≠ .showOnly) (file : Path) (source : String)
    (fixes : List Fix) (o : FixOutcome) :
    f.applyTo file source fixes o =
      f.record file source (f.written source fixes) (f.accepted source fixes)
        (f.sortedOut file source fixes o) := by
  rcases applyTo_eq_record hmode file source fixes o with ⟨new, hnew, happly⟩
  rw [apply_written] at hnew
  cases hnew
  exact happly

/-! ## The fixes of one file -/

/-- What becomes of the fixes of a file. -/
structure Fate where
  /-- The fixes that are applied, or are shown where nothing is changed. -/
  used : List Fix
  /-- The fixes that do not go together with others, or have no unit. -/
  failed : List Fix
  /-- The fixes that are not admitted. -/
  skipped : List Fix
  /-- The accepted fixes where all of them together write what is there already. -/
  idle : List Fix

/-- What becomes of the fixes of a file in the units that there are. -/
def fate (f : Fixer) (units : List SourceUnit) (entry : Path × List Fix) : Fate :=
  match units.find? (·.path.same entry.1) with
  | none => ⟨[], entry.2, [], []⟩
  | some u =>
    let skipped := entry.2.filter (!f.admits ·)
    if f.mode = .showOnly then ⟨f.queue entry.2, [], skipped, []⟩
    else
      let accepted := f.accepted u.source entry.2
      let failed := (f.dropped u.source entry.2).map (·.1)
      if f.written u.source entry.2 = u.source then ⟨[], failed, skipped, accepted⟩
      else ⟨accepted, failed, skipped, []⟩

variable {units : List SourceUnit}

/-- Each fix of a file is admitted or skipped. -/
theorem queue_append_skipped_perm (f : Fixer) (fixes : List Fix) :
    (f.queue fixes ++ fixes.filter (!f.admits ·)).Perm fixes := by
  have hqueue : (f.queue fixes).Perm (fixes.filter f.admits) := List.mergeSort_perm _ _
  exact (hqueue.append_right _).trans (List.filter_append_perm f.admits fixes)

/-- What is counted as skipped are the fixes that are not admitted. -/
theorem length_skipped (f : Fixer) (fixes : List Fix) :
    fixes.length - (f.queue fixes).length = (fixes.filter (!f.admits ·)).length := by
  have hlength := (queue_append_skipped_perm f fixes).length_eq
  rw [List.length_append] at hlength
  omega

/-- Each fix of a file has one fate. -/
theorem fate_perm (f : Fixer) (units : List SourceUnit) (entry : Path × List Fix) :
    ((f.fate units entry).used ++ (f.fate units entry).failed ++ (f.fate units entry).skipped ++
      (f.fate units entry).idle).Perm entry.2 := by
  have hqueue := queue_append_skipped_perm f entry.2
  unfold fate
  cases units.find? (·.path.same entry.1) with
  | none => simp
  | some u =>
    -- the pass splits the queue into what is accepted and what is dropped
    have haccept := accept_perm u.source [] (f.queue entry.2)
    have hall : (f.accepted u.source entry.2 ++ (f.dropped u.source entry.2).map (·.1) ++
        entry.2.filter (!f.admits ·)).Perm entry.2 := (haccept.append_right _).trans hqueue
    dsimp only
    split
    · simpa using hqueue
    · split
      · -- the accepted fixes come last here
        rw [List.nil_append]
        exact List.perm_append_comm.trans ((List.append_assoc _ _ _).symm ▸ hall)
      · rw [List.append_nil]
        exact hall

/-- What the fixes of one file add to the counters. -/
theorem counters_applyFile (f : Fixer) (units : List SourceUnit) (o : FixOutcome)
    (entry : Path × List Fix) :
    (f.applyFile units o entry).applied = o.applied + (f.fate units entry).used.length ∧
    (f.applyFile units o entry).safeApplied =
      o.safeApplied + (f.fate units entry).used.countP (·.safety = .safe) ∧
    (f.applyFile units o entry).riskyApplied =
      o.riskyApplied +
        ((f.fate units entry).used.length - (f.fate units entry).used.countP (·.safety = .safe)) ∧
    (f.applyFile units o entry).failed = o.failed + (f.fate units entry).failed.length ∧
    (f.applyFile units o entry).skipped = o.skipped + (f.fate units entry).skipped.length ∧
    (f.applyFile units o entry).needsReview = o.needsReview := by
  unfold applyFile fate
  cases units.find? (·.path.same entry.1) with
  | none => exact ⟨rfl, rfl, rfl, rfl, rfl, rfl⟩
  | some u =>
    dsimp only
    by_cases hmode : f.mode = .showOnly
    · rw [if_pos hmode, applyTo_of_showOnly hmode, length_skipped]
      exact ⟨rfl, rfl, rfl, rfl, rfl, rfl⟩
    · rw [if_neg hmode, applyTo_of_ne_showOnly hmode, record, sortedOut, length_skipped]
      split
      · refine ⟨rfl, rfl, rfl, ?_, rfl, rfl⟩
        rw [List.length_map]
        rfl
      · refine ⟨rfl, rfl, rfl, ?_, rfl, rfl⟩
        rw [List.length_map]
        rfl

/-- A new text for a unit, under the path that its fixes have. -/
structure Rewrite where
  file : Path
  unit : SourceUnit
  new : String

/-- The new text that the fixes of a file make, if they make one. -/
def rewrite? (f : Fixer) (units : List SourceUnit) (entry : Path × List Fix) : Option Rewrite :=
  if f.mode = .showOnly then none
  else (units.find? (·.path.same entry.1)).bind fun u =>
    if f.written u.source entry.2 = u.source then none
    else some ⟨entry.1, u, f.written u.source entry.2⟩

/-- A new text comes from the unit with the path of the file, and differs from what is there. -/
theorem rewrite?_eq_some_iff {entry : Path × List Fix} {r : Rewrite} :
    f.rewrite? units entry = some r ↔
      f.mode ≠ .showOnly ∧ r.file = entry.1 ∧ units.find? (·.path.same entry.1) = some r.unit ∧
        f.written r.unit.source entry.2 = r.new ∧ r.new ≠ r.unit.source := by
  unfold rewrite?
  by_cases hmode : f.mode = .showOnly
  · simp [hmode]
  · rw [if_neg hmode]
    cases units.find? (·.path.same entry.1) with
    | none => simp
    | some u =>
      rw [Option.bind_some]
      constructor
      · intro h
        split at h
        · cases h
        · next hnew =>
          cases h
          exact ⟨hmode, rfl, rfl, rfl, hnew⟩
      · rintro ⟨-, hfile, hunit, hnew, hdiffers⟩
        cases hunit
        rw [hnew, if_neg hdiffers, ← hfile]

/-- Without a new text, a file leaves all texts as they are. -/
theorem texts_applyFile_of_none {entry : Path × List Fix} (h : f.rewrite? units entry = none)
    (o : FixOutcome) :
    (f.applyFile units o entry).outputs = o.outputs ∧ (f.applyFile units o entry).diffs = o.diffs ∧
      (f.applyFile units o entry).filesModified = o.filesModified := by
  unfold rewrite? at h
  unfold applyFile
  cases hunit : units.find? (·.path.same entry.1) with
  | none => exact ⟨rfl, rfl, rfl⟩
  | some u =>
    dsimp only
    by_cases hmode : f.mode = .showOnly
    · rw [applyTo_of_showOnly hmode]
      exact ⟨rfl, rfl, rfl⟩
    · rw [if_neg hmode, hunit, Option.bind_some] at h
      have hsame : f.written u.source entry.2 = u.source := by simpa using h
      rw [applyTo_of_ne_showOnly hmode, record, if_pos hsame]
      exact ⟨rfl, rfl, rfl⟩

/-- A new text is put down, with its difference if that is asked for. -/
theorem texts_applyFile_of_some {entry : Path × List Fix} {r : Rewrite}
    (h : f.rewrite? units entry = some r) (o : FixOutcome) :
    (f.applyFile units o entry).outputs = o.outputs.insert r.file r.new ∧
      (f.applyFile units o entry).diffs =
        (if f.mode = .diff then o.diffs.insert r.file (diffOf r.file r.unit.source r.new)
        else o.diffs) ∧
      (f.applyFile units o entry).filesModified = o.filesModified + 1 := by
  rcases rewrite?_eq_some_iff.1 h with ⟨hmode, hfile, hunit, hnew, hdiffers⟩
  rw [applyFile, hunit]
  dsimp only
  rw [applyTo_of_ne_showOnly hmode, hnew, record, if_neg hdiffers, hfile]
  exact ⟨rfl, rfl, rfl⟩

/-! ## The counters -/

/-- What the counters say once the fixes of some files have been applied. -/
structure Counted (f : Fixer) (units : List SourceUnit) (done : List (Path × List Fix))
    (o : FixOutcome) : Prop where
  applied : o.applied = (done.flatMap fun e => (f.fate units e).used).length
  kinds : o.applied = o.safeApplied + o.riskyApplied
  failed : o.failed = (done.flatMap fun e => (f.fate units e).failed).length
  skipped : o.skipped = (done.flatMap fun e => (f.fate units e).skipped).length
  needsReview : o.needsReview = f.needsReview

variable {done entries : List (Path × List Fix)} {o : FixOutcome}

/-- Before any file, only the findings for a person have been counted. -/
theorem counted_start (f : Fixer) (units : List SourceUnit) :
    Counted f units [] { FixOutcome.empty with needsReview := f.needsReview } :=
  ⟨rfl, rfl, rfl, rfl, rfl⟩

/-- The counters go on counting with each file. -/
theorem Counted.applyFile (h : Counted f units done o) (entry : Path × List Fix) :
    Counted f units (done ++ [entry]) (f.applyFile units o entry) := by
  obtain ⟨happlied, hsafe, hrisky, hfailed, hskipped, hreview⟩ :=
    counters_applyFile f units o entry
  have hkinds := h.kinds
  have hle :
      (f.fate units entry).used.countP (·.safety = .safe) ≤ (f.fate units entry).used.length :=
    List.countP_le_length
  constructor
  · rw [happlied, h.applied]
    simp
  · -- what is not safe is counted as the rest of what is used
    omega
  · rw [hfailed, h.failed]
    simp
  · rw [hskipped, h.skipped]
    simp
  · rw [hreview, h.needsReview]

/-- The counters after some more files. -/
theorem Counted.foldl (h : Counted f units done o) (entries : List (Path × List Fix)) :
    Counted f units (done ++ entries) (entries.foldl (f.applyFile units) o) := by
  -- the files that are done grow with every step, so the induction is for all of them
  induction entries generalizing done o with
  | nil =>
    rw [List.append_nil]
    exact h
  | cons entry entries ih =>
    rw [List.append_cons, List.foldl_cons]
    exact ih (h.applyFile entry)

/-- The fates of the fixes of some files, all in all. -/
theorem length_fates (f : Fixer) (units : List SourceUnit) (entries : List (Path × List Fix)) :
    (entries.flatMap (·.2)).length =
      (entries.flatMap fun e => (f.fate units e).used).length +
        (entries.flatMap fun e => (f.fate units e).failed).length +
        (entries.flatMap fun e => (f.fate units e).skipped).length +
        (entries.flatMap fun e => (f.fate units e).idle).length := by
  induction entries with
  | nil => rfl
  | cons entry entries ih =>
    -- the fates of this file, on top of those of the later ones
    have hentry := (fate_perm f units entry).length_eq
    simp only [List.length_append] at hentry
    simp only [List.flatMap_cons, List.length_append, ih]
    omega

/-! ## The new texts -/

/-- What the new texts are once the fixes of some files have been applied. -/
structure Texts (f : Fixer) (units : List SourceUnit) (done : List (Path × List Fix))
    (o : FixOutcome) : Prop where
  filesModified : o.filesModified = (done.filterMap (f.rewrite? units)).length
  outputs : o.outputs.toList = (done.filterMap (f.rewrite? units)).map fun r => (r.file, r.new)
  diffs : o.diffs.toList =
    if f.mode = .diff then
      (done.filterMap (f.rewrite? units)).map fun r => (r.file, diffOf r.file r.unit.source r.new)
    else []

/-- Before any file there are no new texts. -/
theorem texts_start (f : Fixer) (units : List SourceUnit) :
    Texts f units [] { FixOutcome.empty with needsReview := f.needsReview } where
  filesModified := rfl
  outputs := rfl
  diffs := by split <;> rfl

/-- A file whose path comes after those of the others adds its text at the end. -/
theorem Texts.applyFile (h : Texts f units done o) {entry : Path × List Fix}
    (hlast : ∀ e ∈ done, compare e.1 entry.1 = .lt) :
    Texts f units (done ++ [entry]) (f.applyFile units o entry) := by
  cases hrewrite : f.rewrite? units entry with
  | none =>
    rcases texts_applyFile_of_none hrewrite o with ⟨houtputs, hdiffs, hfiles⟩
    have hdone :
        (done ++ [entry]).filterMap (f.rewrite? units) = done.filterMap (f.rewrite? units) := by
      rw [List.filterMap_append, List.filterMap_cons_none hrewrite, List.filterMap_nil,
        List.append_nil]
    exact ⟨by rw [hfiles, hdone, h.filesModified], by rw [houtputs, hdone, h.outputs],
      by rw [hdiffs, hdone, h.diffs]⟩
  | some r =>
    rcases texts_applyFile_of_some hrewrite o with ⟨houtputs, hdiffs, hfiles⟩
    have hdone : (done ++ [entry]).filterMap (f.rewrite? units) =
        done.filterMap (f.rewrite? units) ++ [r] := by
      rw [List.filterMap_append, List.filterMap_cons_some hrewrite, List.filterMap_nil]
    have hfile : ∀ r' ∈ done.filterMap (f.rewrite? units), compare r'.file r.file = .lt := by
      intro r' hr'
      rcases List.mem_filterMap.1 hr' with ⟨e, he, hr'⟩
      rw [(rewrite?_eq_some_iff.1 hr').2.1, (rewrite?_eq_some_iff.1 hrewrite).2.1]
      exact hlast e he
    -- so the new text, and the difference, come after those that are there
    refine ⟨?_, ?_, ?_⟩
    · rw [hfiles, hdone, h.filesModified, List.length_append]
      rfl
    · rw [houtputs, SortedMap.toList_insert_of_lt, hdone, h.outputs, List.map_append]
      · rfl
      · rw [h.outputs, List.forall_mem_map]
        exact hfile
    · rw [hdiffs, hdone]
      have hold := h.diffs
      split
      · next hmode =>
        rw [if_pos hmode] at hold
        rw [SortedMap.toList_insert_of_lt, hold, List.map_append]
        · rfl
        · rw [hold, List.forall_mem_map]
          exact hfile
      · next hmode => rw [hold, if_neg hmode]

/-- The new texts after some more files, whose paths come after those of the others. -/
theorem Texts.foldl (h : Texts f units done o)
    (hkeys : (done ++ entries).Pairwise fun a b => compare a.1 b.1 = .lt) :
    Texts f units (done ++ entries) (entries.foldl (f.applyFile units) o) := by
  induction entries generalizing done o with
  | nil =>
    rw [List.append_nil]
    exact h
  | cons entry entries ih =>
    -- the paths increase, so the ones that are done come before this one
    have hlast : ∀ e ∈ done, compare e.1 entry.1 = .lt :=
      fun e he => (List.pairwise_append.1 hkeys).2.2 e he entry List.mem_cons_self
    rw [List.append_cons] at hkeys ⊢
    rw [List.foldl_cons]
    exact ih (h.applyFile hlast) hkeys

/-- There is a difference for each new text where differences are asked for, and for no others. -/
theorem Texts.keys_diffs (h : Texts f units done o) :
    o.diffs.keys = if f.mode = .diff then o.outputs.keys else [] := by
  rw [SortedMap.keys, SortedMap.keys, h.diffs, h.outputs, List.map_map]
  split
  · exact List.map_map
  · rfl

/-- Every new text comes from the fixes of a file. -/
theorem Texts.exists_rewrite (h : Texts f units done o) {p : Path} {new : String}
    (hnew : (p, new) ∈ o.outputs.toList) :
    ∃ fixes u, (p, fixes) ∈ done ∧ f.rewrite? units (p, fixes) = some ⟨p, u, new⟩ := by
  rw [h.outputs] at hnew
  rcases List.mem_map.1 hnew with ⟨r, hr, hpair⟩
  obtain ⟨rfl, rfl⟩ := Prod.mk.inj hpair
  rcases List.mem_filterMap.1 hr with ⟨⟨p, fixes⟩, hdone, hrewrite⟩
  obtain rfl : r.file = p := (rewrite?_eq_some_iff.1 hrewrite).2.1
  exact ⟨fixes, r.unit, hdone, hrewrite⟩

/-- And every new text that the fixes of a file make is there. -/
theorem Texts.mem_outputs (h : Texts f units done o) {entry : Path × List Fix}
    (hentry : entry ∈ done) {r : Rewrite} (hr : f.rewrite? units entry = some r) :
    (r.file, r.new) ∈ o.outputs.toList := by
  rw [h.outputs]
  exact List.mem_map.2 ⟨r, List.mem_filterMap.2 ⟨entry, hentry, hr⟩, rfl⟩

/-! ## All findings -/

/-- The counters once all files are done. -/
theorem counted_applyAll (f : Fixer) (units : List SourceUnit) :
    Counted f units f.byFile.toList (f.applyAll units) :=
  (counted_start f units).foldl f.byFile.toList

/-- The new texts once all files are done. -/
theorem texts_applyAll (f : Fixer) (units : List SourceUnit) :
    Texts f units f.byFile.toList (f.applyAll units) :=
  (texts_start f units).foldl f.byFile.increasing

/-- How many fixes are accepted in files where all accepted fixes together write what is there
already. -/
def unchanged (f : Fixer) (units : List SourceUnit) : Nat :=
  (f.byFile.toList.flatMap fun e => (f.fate units e).idle).length

/-- Fixes that are only shown are not compared with what is there. -/
theorem unchanged_of_showOnly (hmode : f.mode = .showOnly) (units : List SourceUnit) :
    f.unchanged units = 0 := by
  rw [unchanged, List.length_eq_zero_iff, List.flatMap_eq_nil_iff]
  intro entry _
  unfold fate
  split
  · rfl
  · rw [if_pos hmode]

/-- Every finding counts once. It is left to a person, or offers nothing, or has a fix that is
applied, fails, is skipped, or belongs to a file whose accepted fixes write what is there already.
What is applied is safe or not. The files that are modified are those with a new text, which differs
from that of the unit with its path. There is a difference for each of them where differences are
asked for, and for no others. Where fixes are only shown, there is no new text. -/
theorem findings_accounted (mode : FixMode) (risky : Bool) (ds : List Diagnostic)
    (units : List SourceUnit) :
    let f := (fresh mode risky).collect ds
    let o := f.applyAll units
    ds.length =
      o.needsReview + ds.countP offersNothing + o.applied + o.failed + o.skipped +
        f.unchanged units ∧
    o.needsReview = ds.countP (·.requiresReview) ∧
    o.applied = o.safeApplied + o.riskyApplied ∧
    o.filesModified = o.outputs.size ∧
    (∀ p new, (p, new) ∈ o.outputs.toList →
      ∃ u, units.find? (·.path.same p) = some u ∧ new ≠ u.source) ∧
    (o.diffs.keys = if mode = .diff then o.outputs.keys else []) ∧
    (mode = .showOnly → o.outputs = ∅ ∧ f.unchanged units = 0) := by
  intro f o
  have hmode : f.mode = mode := mode_collect (fresh mode risky) ds
  have hcounted : Counted f units f.byFile.toList o := counted_applyAll f units
  have htexts : Texts f units f.byFile.toList o := texts_applyAll f units
  have hreview : o.needsReview = ds.countP (·.requiresReview) := by
    rw [hcounted.needsReview, needsReview_collect]
    exact Nat.zero_add _
  have hfiles : o.filesModified = o.outputs.size := by
    rw [htexts.filesModified, SortedMap.size, htexts.outputs, List.length_map]
  refine ⟨?_, hreview, hcounted.kinds, hfiles, ?_, hmode ▸ htexts.keys_diffs, ?_⟩
  · -- the fixes by file are those that the findings contribute
    have hfixes : (f.byFile.toList.flatMap (·.2)).length = (ds.filterMap contributed?).length := by
      rw [byFile_collect]
      exact (flatten_gathered_perm (ds.filterMap contributed?) ∅).length_eq
    have hfates := length_fates f units f.byFile.toList
    rw [← hcounted.applied, ← hcounted.failed, ← hcounted.skipped, hfixes] at hfates
    have hall := length_findings ds
    rw [hfates] at hall
    rw [hreview, unchanged]
    omega
  · intro p new hnew
    rcases htexts.exists_rewrite hnew with ⟨fixes, u, -, hrewrite⟩
    rcases rewrite?_eq_some_iff.1 hrewrite with ⟨-, -, hunit, -, hdiffers⟩
    exact ⟨u, hunit, hdiffers⟩
  · -- a new text would have been made in another mode
    intro hshow
    refine ⟨SortedMap.ext_mem fun e => ⟨fun he => ?_, fun he => by cases he⟩,
      unchanged_of_showOnly (hmode.trans hshow) units⟩
    rcases htexts.exists_rewrite he with ⟨fixes, u, -, hrewrite⟩
    exact absurd (hmode.trans hshow) (rewrite?_eq_some_iff.1 hrewrite).1

/-! ## Findings of all kinds -/

/-- A finding in a file, with a fix. -/
def offer (file : String) (plan : FixPlan) : Diagnostic :=
  { (Diagnostic.plain "r" .warning "a call" ⟨0, 1⟩).withFix plan with
    location := ⟨⟨file⟩, 1, 1, 1⟩ }

/-- Findings that are left to a person, without a fix, with an empty fix, with fixes that overlap,
with one that is not safe, with one in an unknown file, and with one that writes what is there
already. -/
def allKinds : List Diagnostic :=
  [(offer "A.java" (.replacing ⟨0, 1⟩ "n")).forReview, .plain "r" .info "no fix" ⟨0, 1⟩,
    offer "A.java" .empty, offer "A.java" (.replacing ⟨2, 3⟩ "y"),
    offer "A.java" (.replacing ⟨0, 4⟩ "z"),
    offer "A.java" { FixPlan.replacing ⟨4, 5⟩ "" with safety := .risky },
    offer "C.java" (.replacing ⟨0, 1⟩ "n"), offer "B.java" (.replacing ⟨0, 1⟩ "g")]

/-- The units of these findings, but for one. -/
def knownUnits : List SourceUnit := [⟨⟨"A.java"⟩, "f(x);", ∅, []⟩, ⟨⟨"B.java"⟩, "g();", ∅, []⟩]

/-- Of eight findings one is for a person, two offer nothing, and five have fixes. Where these are
only shown, none is left over and nothing is written. -/
theorem findings_accounted_shown :
    (((fresh .showOnly false).collect allKinds).applyAll knownUnits).needsReview = 1 ∧
    (((fresh .showOnly false).collect allKinds).applyAll knownUnits).applied +
      (((fresh .showOnly false).collect allKinds).applyAll knownUnits).failed +
      (((fresh .showOnly false).collect allKinds).applyAll knownUnits).skipped = 5 ∧
    (((fresh .showOnly false).collect allKinds).applyAll knownUnits).outputs = ∅ := by
  obtain ⟨hall, hreview, -, -, -, -, hshown⟩ :=
    findings_accounted .showOnly false allKinds knownUnits
  rcases hshown rfl with ⟨houtputs, hunchanged⟩
  have hperson : allKinds.countP (·.requiresReview) = 1 := by decide
  have hnothing : allKinds.countP offersNothing = 2 := by decide
  have hlength : allKinds.length = 8 := by decide
  refine ⟨hreview.trans hperson, ?_, houtputs⟩
  rw [hreview, hunchanged] at hall
  omega

end Fixer

end CallLint
