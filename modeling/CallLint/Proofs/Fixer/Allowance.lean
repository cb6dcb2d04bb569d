import CallLint.Proofs.Fixer.Accounting

/-!
# What is not allowed has no influence

A finding that is left to a person, a fix that is only shown, and a fix that is not safe where such
fixes are not asked for do not take part in what is written: not by their texts, not by their
imports, and not by keeping out other fixes.

* `FixOutcome.effect`: the part of an outcome that is about what is written.
* `Fixer.effect_applyFile`, `Fixer.effect_foldl`: the effect of a file, and of all files, is that of
  the admitted fixes.
* `Fixer.effect_of_allowed`: findings that agree on what is allowed have one effect.
* `Fixer.forbidden_without_influence`: the same said of each part, and where the texts come from.
-/

namespace CallLint

/-- The part of an outcome that is about what is written. -/
def FixOutcome.effect (o : FixOutcome) : FixOutcome :=
  { o with failed := 0, skipped := 0, needsReview := 0, failures := [] }

/-- The effect is the new texts, their differences, and the numbers that go with them. -/
theorem FixOutcome.effect_eq_iff {o o' : FixOutcome} :
    o.effect = o'.effect ↔
      o.outputs = o'.outputs ∧ o.diffs = o'.diffs ∧ o.filesModified = o'.filesModified ∧
        o.applied = o'.applied ∧ o.safeApplied = o'.safeApplied ∧
        o.riskyApplied = o'.riskyApplied := by
  simp only [effect, FixOutcome.mk.injEq, true_and]
  constructor
  · rintro ⟨hfiles, happlied, hsafe, hrisky, houtputs, hdiffs⟩
    exact ⟨houtputs, hdiffs, hfiles, happlied, hsafe, hrisky⟩
  · rintro ⟨houtputs, hdiffs, hfiles, happlied, hsafe, hrisky⟩
    exact ⟨hfiles, happlied, hsafe, hrisky, houtputs, hdiffs⟩

namespace Fixer

/-- Whether fixes that are not safe are admitted. -/
def admitsRisky (f : Fixer) : Bool :=
  match f.mode with
  | .all => true
  | .safeOnly => false
  | .diff | .showOnly => f.includeRisky

/-- Whether a finding may take part in what is written. It is not left to a person, and its fix is
not only to be shown, and is safe unless others are admitted. -/
def allows (f : Fixer) (d : Diagnostic) : Bool :=
  !d.requiresReview &&
    d.fix.all fun plan => plan.safety ≠ .displayOnly && (plan.safety ≠ .risky || f.admitsRisky)

/-- What is admitted depends on the safety of a fix and on one answer of the fixer. -/
theorem admits_eq (f : Fixer) (fix : Fix) :
    f.admits fix = (fix.safety ≠ .displayOnly && (fix.safety ≠ .risky || f.admitsRisky)) := by
  unfold admits admitsRisky
  cases fix.safety <;> cases f.mode <;> simp

/-- A finding with a fix is allowed exactly if it is not left to a person and its fix is
admitted. -/
theorem admits_of_contributed? {f : Fixer} {d : Diagnostic} {fix : Fix}
    (h : contributed? d = some fix) : f.admits fix = f.allows d := by
  rw [admits_eq, allows, (contributed?_eq_some_iff.1 h).1, (eq_of_contributed? h).1]
  rfl

/-- The admitted fixes are those of the allowed findings. -/
theorem filter_contributed (f : Fixer) (ds : List Diagnostic) :
    (ds.filterMap contributed?).filter f.admits = (ds.filter f.allows).filterMap contributed? := by
  rw [List.filter_filterMap, List.filterMap_filter]
  congr
  funext d
  cases h : contributed? d with
  | none => simp
  | some fix => simp [Option.filter, admits_of_contributed? h]

/-! ## The effect of one file -/

variable {f : Fixer} {units : List SourceUnit} {o o' : FixOutcome}

/-- The queue has only admitted fixes, so the others may be left out before. -/
@[simp] theorem queue_filter_admits (f : Fixer) (fixes : List Fix) :
    f.queue (fixes.filter f.admits) = f.queue fixes := by
  rw [queue, queue, List.filter_filter]
  simp

/-- What is recorded depends only on the effect so far. -/
theorem effect_record (f : Fixer) (file : Path) (source new : String) (fixes : List Fix)
    (o : FixOutcome) :
    (f.record file source new fixes o).effect =
      (f.record file source new fixes o.effect).effect := by
  unfold record
  split <;> rfl

/-- The effect of the fixes of a file is that of the admitted ones, on top of the effect so far. -/
theorem effect_applyFile (f : Fixer) (units : List SourceUnit) (o : FixOutcome) (p : Path)
    (fixes : List Fix) :
    (f.applyFile units o (p, fixes)).effect =
      (f.applyFile units o.effect (p, fixes.filter f.admits)).effect := by
  unfold applyFile
  cases units.find? (·.path.same p) with
  | none => rfl
  | some u =>
    dsimp only
    by_cases hmode : f.mode = .showOnly
    · rw [applyTo_of_showOnly hmode, applyTo_of_showOnly hmode, queue_filter_admits]
      rfl
    · -- the accepted fixes are the same, so the same text is recorded
      have haccepted : f.accepted u.source (fixes.filter f.admits) = f.accepted u.source fixes := by
        rw [accepted, accepted, queue_filter_admits]
      have hwritten : f.written u.source (fixes.filter f.admits) = f.written u.source fixes := by
        rw [written, written, haccepted]
      rw [applyTo_of_ne_showOnly hmode, applyTo_of_ne_showOnly hmode, haccepted, hwritten,
        effect_record, effect_record f p u.source _ _ (f.sortedOut _ _ _ o.effect)]
      rfl

/-- Where no fix is admitted there is no effect. -/
theorem effect_applyFile_of_nil {p : Path} {fixes : List Fix} (h : fixes.filter f.admits = [])
    (units : List SourceUnit) (o : FixOutcome) :
    (f.applyFile units o (p, fixes)).effect = o.effect := by
  rw [effect_applyFile, h, applyFile]
  cases units.find? (·.path.same p) with
  | none => rfl
  | some u =>
    dsimp only
    by_cases hmode : f.mode = .showOnly
    · have hqueue : f.queue [] = [] := by rw [queue, List.filter_nil, List.mergeSort_nil]
      rw [applyTo_of_showOnly hmode, hqueue]
      rfl
    · -- nothing is accepted, so the text is the one that is there
      rw [applyTo_of_ne_showOnly hmode, written_of_accepted_eq_nil (accepted_nil f u.source),
        record, if_pos rfl]
      rfl

/-! ## The effect of all files -/

/-- The admitted fixes of a file, if it has some. -/
def admittedPart (f : Fixer) (entry : Path × List Fix) : Option (Path × List Fix) :=
  if entry.2.filter f.admits = [] then none else some (entry.1, entry.2.filter f.admits)

/-- A file has an admitted part if one of its fixes is admitted. -/
theorem admittedPart_eq_some_iff {entry : Path × List Fix} {p : Path} {own : List Fix} :
    f.admittedPart entry = some (p, own) ↔
      entry.1 = p ∧ entry.2.filter f.admits = own ∧ entry.2.filter f.admits ≠ [] := by
  unfold admittedPart
  split
  · next h => simp [h]
  · next h => simp [h]

/-- The effect of some files is that of their admitted fixes, from an outcome with the same effect
on. -/
theorem effect_foldl (f : Fixer) (units : List SourceUnit) (entries : List (Path × List Fix))
    (h : o.effect = o'.effect) :
    (entries.foldl (f.applyFile units) o).effect =
      ((entries.filterMap f.admittedPart).foldl (f.applyFile units) o').effect := by
  -- the two sides may have different counters, so the induction is for any two outcomes
  induction entries generalizing o o' with
  | nil => exact h
  | cons entry entries ih =>
    rcases entry with ⟨p, fixes⟩
    rw [List.foldl_cons]
    by_cases hnone : fixes.filter f.admits = []
    · have hpart : f.admittedPart (p, fixes) = none := if_pos hnone
      rw [List.filterMap_cons_none hpart]
      exact ih ((effect_applyFile_of_nil hnone units o).trans h)
    · have hpart : f.admittedPart (p, fixes) = some (p, fixes.filter f.admits) := if_neg hnone
      rw [List.filterMap_cons_some hpart, List.foldl_cons]
      apply ih
      rw [effect_applyFile, effect_applyFile f units o', h, List.filter_filter]
      simp

/-- The admitted fixes of each file are the admitted fixes by file. -/
theorem filterMap_admittedPart {fixes : List Fix} (f : Fixer)
    (h : Path.spelledAlike (fixes.map (·.file))) :
    (fixes.foldl gather ∅).toList.filterMap f.admittedPart =
      ((fixes.filter f.admits).foldl gather ∅).toList := by
  have hkey : ∀ {e e' : Path × List Fix}, f.admittedPart e = some e' → e'.1 = e.1 := by
    intro e e' he
    unfold admittedPart at he
    split at he
    · cases he
    · cases he
      rfl
  -- leaving out files keeps the others in order, so both sides are sorted maps
  have hincreasing : ((fixes.foldl gather ∅).toList.filterMap f.admittedPart).Pairwise
      fun a b => compare a.1 b.1 = .lt := by
    apply List.Pairwise.filterMap f.admittedPart _ (fixes.foldl gather ∅).increasing
    intro a b hab a' ha b' hb
    rw [hkey ha, hkey hb]
    exact hab
  have hsub : Path.spelledAlike ((fixes.filter f.admits).map (·.file)) :=
    h.of_subset fun p hp => (List.filter_sublist.map _).subset hp
  have hsame :
      (⟨_, hincreasing⟩ : SortedMap Path (List Fix)) = (fixes.filter f.admits).foldl gather ∅ := by
    apply SortedMap.ext_mem
    rintro ⟨p, own⟩
    rw [mem_gathered_iff_of_spelledAlike hsub, List.mem_filterMap]
    constructor
    · rintro ⟨⟨k, all⟩, hentry, hpart⟩
      rcases admittedPart_eq_some_iff.1 hpart with ⟨rfl, rfl, hsome⟩
      rcases (mem_gathered_iff_of_spelledAlike h).1 hentry with ⟨⟨fix, hfix, rfl⟩, rfl⟩
      rcases List.exists_mem_of_ne_nil _ hsome with ⟨fix', hfix'⟩
      simp only [List.mem_filter] at hfix'
      rcases hfix' with ⟨⟨hfix', hfile⟩, hadmits⟩
      refine ⟨⟨fix', List.mem_filter.2 ⟨hfix', hadmits⟩, ?_⟩, List.filter_comm _ _ _⟩
      exact h fix'.file (List.mem_map_of_mem hfix') fix.file (List.mem_map_of_mem hfix) hfile
    · -- the path of an admitted fix is that of a file, whose admitted fixes are not none
      rintro ⟨⟨fix, hfix, rfl⟩, rfl⟩
      have hmem : fix ∈ (fixes.filter f.admits).filter (·.file.same fix.file) := by
        simpa [Path.same] using hfix
      refine ⟨(fix.file, fixes.filter (·.file.same fix.file)),
        (mem_gathered_iff_of_spelledAlike h).2 ⟨⟨fix, (List.mem_filter.1 hfix).1, rfl⟩, rfl⟩,
        admittedPart_eq_some_iff.2 ⟨rfl, ?_, ?_⟩⟩
      · exact List.filter_comm _ _ _
      · rw [List.filter_comm]
        exact List.ne_nil_of_mem hmem
  exact congrArg SortedMap.toList hsame

/-! ## Two lists of findings -/

/-- Where each place has one spelling, findings have the effect of their allowed fixes. -/
theorem effect_applyAll_fresh (mode : FixMode) (risky : Bool) (units : List SourceUnit)
    {ds : List Diagnostic} (h : Path.spelledAlike (ds.map (·.location.file))) :
    (((fresh mode risky).collect ds).applyAll units).effect =
      ((((ds.filter (fresh mode risky).allows).filterMap contributed?).foldl gather ∅).toList.foldl
        ((fresh mode risky).applyFile units) .empty).effect := by
  have hfiles : Path.spelledAlike ((ds.filterMap contributed?).map (·.file)) :=
    h.of_subset fun p hp => file_of_mem_contributed hp
  rw [applyAll, applyFile_congr (mode_collect _ ds) (includeRisky_collect _ ds), byFile_collect,
    ← filter_contributed, ← filterMap_admittedPart (fresh mode risky) hfiles]
  exact effect_foldl (fresh mode risky) units _ rfl

/-- Findings that agree on what is allowed have one effect. -/
theorem effect_of_allowed (mode : FixMode) (risky : Bool) (units : List SourceUnit)
    {ds es : List Diagnostic} (hds : Path.spelledAlike (ds.map (·.location.file)))
    (hes : Path.spelledAlike (es.map (·.location.file)))
    (hsame : ds.filter (fresh mode risky).allows = es.filter (fresh mode risky).allows) :
    (((fresh mode risky).collect ds).applyAll units).effect =
      (((fresh mode risky).collect es).applyAll units).effect := by
  rw [effect_applyAll_fresh mode risky units hds, effect_applyAll_fresh mode risky units hes, hsame]

/-- What is written comes from the fixes of allowed findings. -/
theorem written_of_allowed (mode : FixMode) (risky : Bool) (units : List SourceUnit)
    (ds : List Diagnostic) {p : Path} {new : String}
    (hnew : (p, new) ∈ (((fresh mode risky).collect ds).applyAll units).outputs.toList) :
    ∃ (u : SourceUnit) (fixes : List Fix), units.find? (·.path.same p) = some u ∧
      (∀ fix ∈ fixes, ∃ d ∈ ds, (fresh mode risky).allows d = true ∧ fixOf? d = some fix) ∧
      (FixPlan.merge (fixes.map (·.plan))).apply u.source = .ok new := by
  obtain ⟨own, u, hown, hrewrite⟩ :=
    (texts_applyAll ((fresh mode risky).collect ds) units).exists_rewrite hnew
  rcases rewrite?_eq_some_iff.1 hrewrite with ⟨-, -, hunit, hwritten, -⟩
  rw [byFile_collect] at hown
  refine ⟨u, ((fresh mode risky).collect ds).accepted u.source own, hunit, ?_, ?_⟩
  · intro fix hfix
    -- an accepted fix has been in the queue, so it is admitted, and some finding has contributed it
    have hqueue : fix ∈ (fresh mode risky).queue own := by
      rw [← queue_collect (fresh mode risky) ds]
      exact (accept_perm u.source [] _).mem_iff.1 (List.mem_append_left _ hfix)
    rw [queue, List.mem_mergeSort, List.mem_filter] at hqueue
    rcases List.mem_filterMap.1 (mem_of_mem_gathered hown hqueue.1) with ⟨d, hd, hfrom⟩
    exact ⟨d, hd, (admits_of_contributed? hfrom).symm.trans hqueue.2,
      (contributed?_eq_some_iff.1 hfrom).2⟩
  · rw [apply_written, hwritten]

/-- What is not allowed has no influence on what is written. Findings that are left to a person,
fixes that are only to be shown, and fixes that are not safe where such fixes are not admitted may
be added and taken away: the new texts, the differences, and the numbers of modified files and
applied fixes stay the same. Every new text is what the plans of some allowed findings, merged,
write into the unit. -/
theorem forbidden_without_influence (mode : FixMode) (risky : Bool) (units : List SourceUnit)
    (ds es : List Diagnostic)
    (hds : Path.spelledAlike (ds.map (·.location.file)))
    (hes : Path.spelledAlike (es.map (·.location.file)))
    (hsame : ds.filter (fresh mode risky).allows = es.filter (fresh mode risky).allows) :
    let o := ((fresh mode risky).collect ds).applyAll units
    let o' := ((fresh mode risky).collect es).applyAll units
    (o.outputs = o'.outputs ∧ o.diffs = o'.diffs ∧ o.filesModified = o'.filesModified ∧
      o.applied = o'.applied ∧ o.safeApplied = o'.safeApplied ∧ o.riskyApplied = o'.riskyApplied) ∧
    ∀ p new, (p, new) ∈ o.outputs.toList →
      ∃ (u : SourceUnit) (fixes : List Fix), units.find? (·.path.same p) = some u ∧
        (∀ fix ∈ fixes, ∃ d ∈ ds, (fresh mode risky).allows d = true ∧ fixOf? d = some fix) ∧
        (FixPlan.merge (fixes.map (·.plan))).apply u.source = .ok new := by
  intro o o'
  refine ⟨FixOutcome.effect_eq_iff.1 (effect_of_allowed mode risky units hds hes hsame), ?_⟩
  intro p new hnew
  exact written_of_allowed mode risky units ds hnew

/-- Findings that are not allowed: one for a person, one only to be shown, which would bring an
import, and one that is not safe. All of them would get in the way of other fixes. -/
def forbiddenKinds : List Diagnostic :=
  [(offer "A.java" (.replacing ⟨0, 4⟩ "n")).forReview,
    offer "A.java" { (FixPlan.replacing ⟨0, 4⟩ "s").addImport "a.B" with safety := .displayOnly },
    offer "A.java" { FixPlan.replacing ⟨2, 3⟩ "r" with safety := .risky }]

/-- Findings that are not allowed may come before others, and nothing changes. -/
theorem forbidden_without_influence_before :
    Path.spelledAlike ((forbiddenKinds ++ allKinds).map (·.location.file)) ∧
    (forbiddenKinds ++ allKinds).filter (fresh .safeOnly false).allows =
      allKinds.filter (fresh .safeOnly false).allows ∧
    (((fresh .safeOnly false).collect (forbiddenKinds ++ allKinds)).applyAll knownUnits).outputs =
      (((fresh .safeOnly false).collect allKinds).applyAll knownUnits).outputs ∧
    (((fresh .safeOnly false).collect (forbiddenKinds ++ allKinds)).applyAll knownUnits).applied =
      (((fresh .safeOnly false).collect allKinds).applyAll knownUnits).applied := by
  have hmore : Path.spelledAlike ((forbiddenKinds ++ allKinds).map (·.location.file)) := by
    decide +kernel
  have hless : Path.spelledAlike (allKinds.map (·.location.file)) := by decide +kernel
  have hsame : (forbiddenKinds ++ allKinds).filter (fresh .safeOnly false).allows =
      allKinds.filter (fresh .safeOnly false).allows := by decide +kernel
  obtain ⟨⟨houtputs, -, -, happlied, -, -⟩, -⟩ :=
    forbidden_without_influence .safeOnly false knownUnits _ _ hmore hless hsame
  exact ⟨hmore, hsame, houtputs, happlied⟩

end Fixer

end CallLint
