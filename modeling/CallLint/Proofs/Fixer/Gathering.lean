import CallLint.Fixer.Basic
import CallLint.Proofs.Sorted.Grouping

/-!
# Collecting fixes

A fixer sorts the fixes that it collects by file. A finding that is left to a person is counted and
contributes no fix; the fixes of the others are found again under their file, each of them once.

* `Fixer.byFile_collect`: the fixes by file are those that the findings contribute.
* `Fixer.get?_gathered`, `Fixer.mem_gathered_iff_of_spelledAlike`: the fixes of one file.
* `Fixer.flatten_gathered_perm`, `Fixer.length_findings`: nothing is lost and nothing is doubled.
-/

namespace CallLint

/-- Whether paths that stand for one place are spelled the same. -/
def Path.spelledAlike (paths : List Path) : Prop :=
  ∀ p ∈ paths, ∀ q ∈ paths, p.same q = true → p = q

instance (paths : List Path) : Decidable (Path.spelledAlike paths) :=
  inferInstanceAs (Decidable (∀ p ∈ paths, ∀ q ∈ paths, p.same q = true → p = q))

theorem Path.spelledAlike.of_subset {paths more : List Path} (h : Path.spelledAlike more)
    (hsub : ∀ p ∈ paths, p ∈ more) : Path.spelledAlike paths :=
  fun p hp q hq => h p (hsub p hp) q (hsub q hq)

namespace Fixer

/-- A fixer without fixes, in a mode, with or without fixes that are not safe. -/
def fresh (mode : FixMode) (risky : Bool) : Fixer := ⟨∅, 0, mode, risky⟩

/-- Every mode goes with either setting, if the mode is set last. -/
theorem withMode_withRisky_empty (mode : FixMode) (risky : Bool) :
    (empty.withRisky risky).withMode mode = fresh mode risky := rfl

/-- Set last, fixes that are not safe turn the mode of safe fixes into that of all fixes. -/
theorem withRisky_withMode_empty (mode : FixMode) (risky : Bool) :
    (empty.withMode mode).withRisky risky =
      fresh (if risky && mode = .safeOnly then .all else mode) risky := rfl

/-! ## What a finding contributes -/

/-- The fix that a finding contributes, unless it is left to a person. -/
def contributed? (d : Diagnostic) : Option Fix := if d.requiresReview then none else fixOf? d

/-- Whether a finding is not left to a person, but has no fix, or one that changes nothing. -/
def offersNothing (d : Diagnostic) : Bool := !d.requiresReview && d.fix.all (·.isEmpty)

theorem contributed?_eq_some_iff {d : Diagnostic} {fix : Fix} :
    contributed? d = some fix ↔ d.requiresReview = false ∧ fixOf? d = some fix := by
  unfold contributed?
  cases d.requiresReview <;> simp

/-- A finding contributes its own fix, for its own file. -/
theorem eq_of_contributed? {d : Diagnostic} {fix : Fix} (h : contributed? d = some fix) :
    d.fix = some fix.plan ∧ fix.file = d.location.file := by
  rcases Option.bind_eq_some_iff.1 (contributed?_eq_some_iff.1 h).2 with ⟨plan, hplan, hfix⟩
  split at hfix
  · cases hfix
  · cases hfix
    exact ⟨hplan, rfl⟩

@[simp] theorem isSome_contributed? (d : Diagnostic) :
    (contributed? d).isSome = (!d.requiresReview && !d.fix.all (·.isEmpty)) := by
  unfold contributed? fixOf?
  cases d.requiresReview with
  | true => rfl
  | false =>
    cases d.fix with
    | none => rfl
    | some plan => cases hempty : plan.isEmpty <;> simp [hempty]

/-- What findings contribute is for the files that they are in. -/
theorem file_of_mem_contributed {ds : List Diagnostic} {p : Path}
    (h : p ∈ (ds.filterMap contributed?).map (·.file)) :
    p ∈ ds.map (·.location.file) := by
  rcases List.mem_map.1 h with ⟨fix, hfix, rfl⟩
  rcases List.mem_filterMap.1 hfix with ⟨d, hd, hfrom⟩
  rw [(eq_of_contributed? hfrom).2]
  exact List.mem_map_of_mem hd

/-- A finding is left to a person, offers nothing, or contributes a fix. -/
theorem length_findings (ds : List Diagnostic) :
    ds.length =
      ds.countP (·.requiresReview) + ds.countP offersNothing +
      (ds.filterMap contributed?).length := by
  rw [List.length_filterMap_eq_countP]
  induction ds with
  | nil => rfl
  | cons d ds ih =>
    rw [List.length_cons, ih, List.countP_cons, List.countP_cons, List.countP_cons,
      isSome_contributed?, offersNothing]
    -- exactly one of the three counts the finding
    cases d.requiresReview <;> cases d.fix.all (·.isEmpty) <;> simp <;> omega

/-! ## Collecting -/

/-- One more fix among the fixes by file. -/
def gather (byFile : SortedMap Path (List Fix)) (fix : Fix) : SortedMap Path (List Fix) :=
  byFile.alter fix.file fun fixes => fixes.getD [] ++ [fix]

/-- The fixes by file are those of the findings, gathered one by one. -/
@[simp] theorem byFile_collect (f : Fixer) (ds : List Diagnostic) :
    (f.collect ds).byFile = (ds.filterMap contributed?).foldl gather f.byFile := by
  rw [collect]
  -- each finding adds to what has been gathered before, so the induction is for every fixer
  induction ds generalizing f with
  | nil => rfl
  | cons d ds ih =>
    rw [List.foldl_cons, ih]
    by_cases hreview : d.requiresReview = true
    · -- left to a person: nothing is gathered
      have hnone : contributed? d = none := if_pos hreview
      rw [List.filterMap_cons_none hnone, take, if_pos hreview]
    · -- otherwise its fix is, if it has one
      have hfix : contributed? d = fixOf? d := if_neg hreview
      rw [take, if_neg hreview]
      cases h : fixOf? d with
      | none => rw [List.filterMap_cons_none (hfix.trans h)]
      | some fix => rw [List.filterMap_cons_some (hfix.trans h), List.foldl_cons]; rfl

@[simp] theorem needsReview_take (f : Fixer) (d : Diagnostic) :
    (f.take d).needsReview = f.needsReview + if d.requiresReview then 1 else 0 := by
  unfold take
  split
  · rfl
  · split <;> rfl

/-- Every finding that is left to a person is counted. -/
@[simp] theorem needsReview_collect (f : Fixer) (ds : List Diagnostic) :
    (f.collect ds).needsReview = f.needsReview + ds.countP (·.requiresReview) := by
  rw [collect]
  induction ds generalizing f with
  | nil => rfl
  | cons d ds ih =>
    rw [List.foldl_cons, ih, needsReview_take, List.countP_cons]
    omega

/-- Which fixes are admitted depends on the settings alone. -/
theorem queue_congr {f g : Fixer} (hmode : f.mode = g.mode)
    (hrisky : f.includeRisky = g.includeRisky) :
    f.queue = g.queue := by
  have hadmits : f.admits = g.admits := by
    funext fix
    rw [admits, admits, hmode, hrisky]
  funext fixes
  rw [queue, queue, hadmits]

/-- Which fixes are admitted does not depend on the fixes that are there. -/
theorem queue_collect (f : Fixer) (ds : List Diagnostic) (fixes : List Fix) :
    (f.collect ds).queue fixes = f.queue fixes :=
  congrFun (queue_congr (mode_collect f ds) (includeRisky_collect f ds)) fixes

/-- What is done with the fixes of a file depends on the settings alone, not on the fixes collected
so far. -/
theorem applyFile_congr {f g : Fixer} (hmode : f.mode = g.mode)
    (hrisky : f.includeRisky = g.includeRisky) :
    f.applyFile = g.applyFile := by
  funext units o entry
  simp only [applyFile, applyTo, record, queue_congr hmode hrisky, hmode]

/-! ## The fixes by file -/

theorem hasKey_file (p : Path) : SortedMap.hasKey Fix.file p = fun fix => fix.file.same p := by
  funext fix
  rw [Bool.eq_iff_iff, SortedMap.hasKey_iff, Path.compare_eq_iff, Path.same, decide_eq_true_eq]

/-- A look-up in the fixes by file finds those of the file, in the order in which they came. -/
theorem get?_gathered (fixes : List Fix) (byFile : SortedMap Path (List Fix)) (p : Path) :
    (fixes.foldl gather byFile).get? p =
      if fixes.filter (·.file.same p) = [] then byFile.get? p
      else some ((byFile.get? p).getD [] ++ fixes.filter (·.file.same p)) := by
  rw [← hasKey_file]
  exact SortedMap.get?_foldl_gather fixes byFile p

/-- The keys of the fixes by file are files of fixes. -/
theorem key_of_mem_gathered {fixes : List Fix} {byFile : SortedMap Path (List Fix)}
    {entry : Path × List Fix} (h : entry ∈ (fixes.foldl gather byFile).toList) :
    (∃ fix ∈ fixes, entry.1 = fix.file) ∨ ∃ old ∈ byFile.toList, entry.1 = old.1 := by
  induction fixes generalizing byFile with
  | nil => exact .inr ⟨entry, h, rfl⟩
  | cons fix fixes ih =>
    rcases ih h with ⟨g, hg, hkey⟩ | ⟨old, hold, hkey⟩
    · exact .inl ⟨g, List.mem_cons_of_mem fix hg, hkey⟩
    · -- the key was there when the first fix had been gathered: it is an old one, or that of the
      -- fix, or that of an entry that the fix has joined
      rw [hkey]
      rcases SortedMap.mem_toList_alter hold with hold | rfl | ⟨e, he, -, rfl⟩
      · exact .inr ⟨old, hold, rfl⟩
      · exact .inl ⟨fix, List.mem_cons_self, rfl⟩
      · exact .inr ⟨e, he, rfl⟩

/-- Where one place has one spelling, the files of some fixes are known, and so are the fixes of
each. -/
theorem mem_gathered_iff_of_spelledAlike {fixes own : List Fix} {p : Path}
    (h : Path.spelledAlike (fixes.map (·.file))) :
    (p, own) ∈ (fixes.foldl gather ∅).toList ↔
      (∃ fix ∈ fixes, fix.file = p) ∧ fixes.filter (·.file.same p) = own := by
  have hfile : ∀ {k : Path} {l : List Fix}, (k, l) ∈ (fixes.foldl gather ∅).toList →
      ∃ fix ∈ fixes, fix.file = k := by
    intro k l hentry
    rcases key_of_mem_gathered hentry with ⟨fix, hfix, hkey⟩ | ⟨old, hold, -⟩
    · exact ⟨fix, hfix, hkey.symm⟩
    · cases hold
  have hget := get?_gathered fixes ∅ p
  rw [SortedMap.get?_empty] at hget
  constructor
  · -- an entry is found under its own key
    intro hentry
    have hsome := SortedMap.get?_eq_some_of_mem hentry Std.ReflCmp.compare_self
    rw [hget] at hsome
    split at hsome
    · cases hsome
    · exact ⟨hfile hentry, Option.some.inj hsome⟩
  · -- the file of a fix is a key, up to its spelling
    rintro ⟨⟨fix, hfix, rfl⟩, rfl⟩
    have hmem : fix ∈ fixes.filter (·.file.same fix.file) := by simp [Path.same, hfix]
    rw [if_neg (List.ne_nil_of_mem hmem)] at hget
    rcases SortedMap.exists_mem_of_get? hget with ⟨k, hk, hentry⟩
    -- the key stands for the same place, and so is spelled the same
    rcases hfile hentry with ⟨fix', hfix', rfl⟩
    have hsame : fix.file.same fix'.file = true := by
      rw [Path.same, decide_eq_true_eq]
      exact Path.compare_eq_iff.1 hk
    have hspelled :=
      h fix.file (List.mem_map_of_mem hfix) fix'.file (List.mem_map_of_mem hfix') hsame
    rw [← hspelled] at hentry
    exact hentry

/-- Sorting fixes by file loses none and doubles none. -/
theorem flatten_gathered_perm (fixes : List Fix) (byFile : SortedMap Path (List Fix)) :
    ((fixes.foldl gather byFile).toList.flatMap (·.2)).Perm
      (byFile.toList.flatMap (·.2) ++ fixes) :=
  SortedMap.members_foldl_gather_perm fixes byFile

/-- Every fix of a file is one of those that were gathered. -/
theorem mem_of_mem_gathered {fixes own : List Fix} {p : Path}
    (h : (p, own) ∈ (fixes.foldl gather ∅).toList)
    {fix : Fix} (hfix : fix ∈ own) : fix ∈ fixes :=
  (flatten_gathered_perm fixes ∅).mem_iff.1 (List.mem_flatMap.2 ⟨(p, own), h, hfix⟩)

end Fixer

end CallLint
