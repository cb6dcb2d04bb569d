import CallLint.Proofs.Fixer.PerFile
import CallLint.Proofs.Ranking

/-!
# The order of arrival

Findings may arrive in any order, those of one file among those of others, and so may units. The
fixes of a file are put in order before they are looked at, so the order in which they came can only
tell between fixes that start at the same place. Where no admitted fixes do, nothing of the outcome
depends on it.

* `Fixer.queue_of_perm`: the queue of a file does not depend on the order of its fixes.
* `Fixer.applyFile_of_perm`: neither does what becomes of the fixes of a file, nor does it depend on
  the order of units.
* `Fixer.keys_gathered_of_perm`, `Fixer.foldl_applyFile_of_perm`: all files, in their order.
* `Fixer.outcome_of_perm`: the whole outcome.
-/

namespace CallLint.Fixer

/-! ## The queue of a file -/

/-- A fix without edits comes first, and others as their first edits do. -/
theorem startsBefore_iff {a b : Fix} :
    startsBefore a b = true ↔
      firstStart? a = none ∨ ∃ m n, firstStart? a = some m ∧ firstStart? b = some n ∧ m ≤ n := by
  unfold startsBefore
  cases firstStart? a <;> cases firstStart? b <;> simp

theorem ranking_startsBefore : Ranking startsBefore where
  trans a b c hab hbc := by
    rw [startsBefore_iff] at hab hbc ⊢
    rcases hab with ha | ⟨m, n, ha, hb, hmn⟩
    · exact .inl ha
    · rcases hbc with hb' | ⟨n', k, hb', hc, hnk⟩
      · rw [hb] at hb'
        cases hb'
      · rw [hb, Option.some.injEq] at hb'
        exact .inr ⟨m, k, ha, hc, by omega⟩
  total a b := by
    unfold startsBefore
    cases firstStart? a <;> cases firstStart? b <;> simp [Nat.le_total]

/-- Fixes that are ranked alike start at the same place. -/
theorem firstStart?_eq_of_startsBefore {a b : Fix} (hab : startsBefore a b = true)
    (hba : startsBefore b a = true) : firstStart? a = firstStart? b := by
  rw [startsBefore_iff] at hab hba
  grind

/-- Whether no two of some fixes are for one file and start at the same place. Fixes without edits
all start at the same place. -/
def StartApart (fixes : List Fix) : Prop :=
  fixes.Pairwise fun a b => a.file.same b.file = true → firstStart? a ≠ firstStart? b

instance (fixes : List Fix) : Decidable (StartApart fixes) :=
  inferInstanceAs (Decidable (fixes.Pairwise fun a b => a.file.same b.file = true →
    firstStart? a ≠ firstStart? b))

variable {f : Fixer} {fixes fixes' : List Fix}

/-- The queue does not depend on the order of fixes that start at different places. -/
theorem queue_of_perm (hperm : fixes.Perm fixes')
    (hstarts : (fixes.filter f.admits).Pairwise fun a b => firstStart? a ≠ firstStart? b) :
    f.queue fixes = f.queue fixes' := by
  have hsorted : (f.queue fixes).Perm (fixes.filter f.admits) := List.mergeSort_perm _ _
  have hapart : (f.queue fixes).Pairwise fun a b => firstStart? a ≠ firstStart? b :=
    (hsorted.pairwise_iff fun hab => Ne.symm hab).2 hstarts
  have hstrict : (f.queue fixes).Pairwise fun a b => startsBefore a b = true ∧
      startsBefore b a = false := by
    refine (hapart.and (ranking_startsBefore.pairwise_mergeSort _)).imp fun {a b} hab => ⟨hab.2, ?_⟩
    rw [Bool.eq_false_iff]
    exact fun hba => hab.1 (firstStart?_eq_of_startsBefore hab.2 hba)
  -- a strict order is found again from every other one
  exact (ranking_startsBefore.mergeSort_eq_of_perm ((hperm.symm.filter f.admits).trans hsorted.symm)
    hstrict).symm

/-! ## One file -/

variable {units units' : List SourceUnit}

/-- Whether paths differ has nothing to do with the order of the units. -/
theorem apart_of_perm (hunits : units.Perm units') (h : SourceUnit.apart units) :
    SourceUnit.apart units' := by
  refine (hunits.pairwise_iff fun {u v} huv => ?_).1 h
  rw [← huv, Path.same, Path.same, decide_eq_decide]
  exact eq_comm

/-- Units with different paths are found in any order. -/
theorem find?_of_perm (hunits : units.Perm units') (h : SourceUnit.apart units) (p : Path) :
    units.find? (·.path.same p) = units'.find? (·.path.same p) := by
  cases hfind : units.find? (·.path.same p) with
  | none =>
    rw [List.find?_eq_none] at hfind
    exact (List.find?_eq_none.2 fun u hu => hfind u (hunits.mem_iff.2 hu)).symm
  | some u =>
    -- no other unit has this path, so it is the first one there as well
    have hu : u ∈ units' := hunits.mem_iff.1 (List.mem_of_find?_eq_some hfind)
    have hp : u.path.same p = true := by simpa using List.find?_some hfind
    exact (find?_same (apart_of_perm hunits h) hu hp).symm

/-- What becomes of the fixes of a file depends on their number and on those that are admitted, in
order. -/
theorem applyTo_congr (hqueue : f.queue fixes = f.queue fixes')
    (hlength : fixes.length = fixes'.length) (file : Path) (source : String) (o : FixOutcome) :
    f.applyTo file source fixes o = f.applyTo file source fixes' o := by
  rw [applyTo, applyTo, hqueue, hlength]

/-- The fixes of a file and the units may come in any order. -/
theorem applyFile_of_perm (hunits : units.Perm units') (hapart : SourceUnit.apart units)
    (hperm : fixes.Perm fixes')
    (hstarts : (fixes.filter f.admits).Pairwise fun a b => firstStart? a ≠ firstStart? b)
    (o : FixOutcome) (p : Path) :
    f.applyFile units o (p, fixes) = f.applyFile units' o (p, fixes') := by
  unfold applyFile
  rw [← find?_of_perm hunits hapart]
  cases units.find? (·.path.same p) with
  | none =>
    dsimp only
    rw [hperm.length_eq]
  | some u => exact applyTo_congr (queue_of_perm hperm hstarts) hperm.length_eq p u.source o

/-! ## All files -/

/-- The admitted fixes of one file start at different places if all admitted fixes of a file do. -/
theorem StartApart.own (h : StartApart (fixes.filter f.admits)) (p : Path) :
    ((fixes.filter (·.file.same p)).filter f.admits).Pairwise fun a b =>
      firstStart? a ≠ firstStart? b := by
  rw [List.filter_comm]
  refine (h.filter _).imp_of_mem fun {a b} ha hb hab => hab ?_
  have ha : a.file.same p = true := by simpa using (List.mem_filter.1 ha).2
  have hb : b.file.same p = true := by simpa using (List.mem_filter.1 hb).2
  simp only [Path.same, decide_eq_true_eq] at ha hb ⊢
  rw [ha, hb]

/-- The files of some fixes, each with its own ones. -/
theorem toList_gathered (h : Path.spelledAlike (fixes.map (·.file))) :
    (fixes.foldl gather ∅).toList =
      (fixes.foldl gather ∅).keys.map fun p => (p, fixes.filter (·.file.same p)) := by
  rw [SortedMap.keys, List.map_map]
  refine (List.map_id _).symm.trans (List.map_congr_left fun entry hentry => ?_)
  rw [Function.comp_apply, ((mem_gathered_iff_of_spelledAlike h).1 hentry).2]
  rfl

/-- The files are those that the fixes are for. -/
theorem mem_keys_gathered (h : Path.spelledAlike (fixes.map (·.file))) {p : Path} :
    p ∈ (fixes.foldl gather ∅).keys ↔ p ∈ fixes.map (·.file) := by
  simp [SortedMap.keys, mem_gathered_iff_of_spelledAlike h]

/-- The files come in one order. -/
theorem keys_gathered_of_perm (hperm : fixes.Perm fixes')
    (h : Path.spelledAlike (fixes.map (·.file))) :
    (fixes.foldl gather ∅).keys = (fixes'.foldl gather ∅).keys := by
  have hfiles : (fixes.map (·.file)).Perm (fixes'.map (·.file)) := hperm.map _
  have h' : Path.spelledAlike (fixes'.map (·.file)) := h.of_subset fun p hp => hfiles.mem_iff.2 hp
  apply SortedMap.keys_ext
  intro p
  rw [mem_keys_gathered h, mem_keys_gathered h', hfiles.mem_iff]

/-- What becomes of the fixes of all files, one file after the other, does not depend on the order
of the fixes and of the units. -/
theorem foldl_applyFile_of_perm (hunits : units.Perm units') (hapart : SourceUnit.apart units)
    (hperm : fixes.Perm fixes') (h : Path.spelledAlike (fixes.map (·.file)))
    (hstarts : StartApart (fixes.filter f.admits)) (o : FixOutcome) :
    (fixes.foldl gather ∅).toList.foldl (f.applyFile units) o =
      (fixes'.foldl gather ∅).toList.foldl (f.applyFile units') o := by
  have h' : Path.spelledAlike (fixes'.map (·.file)) :=
    h.of_subset fun p hp => (hperm.map _).mem_iff.2 hp
  rw [toList_gathered h, toList_gathered h', ← keys_gathered_of_perm hperm h, List.foldl_map,
    List.foldl_map]
  -- the files are the same, so it is one file against the same file
  congr 1
  funext o p
  exact applyFile_of_perm hunits hapart (hperm.filter _) (hstarts.own p) o p

/-- The outcome does not depend on the order in which findings and units arrive. This holds in every
mode and with either setting, if the units have different paths, paths of one place are spelled the
same, and no two admitted fixes of a file start at the same place. -/
theorem outcome_of_perm (mode : FixMode) (risky : Bool) {ds ds' : List Diagnostic}
    {units units' : List SourceUnit} (hfindings : ds.Perm ds') (hunits : units.Perm units')
    (hapart : SourceUnit.apart units)
    (hspelled : Path.spelledAlike (ds.map (·.location.file)))
    (hstarts : StartApart ((ds.filterMap contributed?).filter (fresh mode risky).admits)) :
    ((fresh mode risky).collect ds).applyAll units =
      ((fresh mode risky).collect ds').applyAll units' := by
  have hfiles : Path.spelledAlike ((ds.filterMap contributed?).map (·.file)) :=
    hspelled.of_subset fun p hp => file_of_mem_contributed hp
  -- the findings leave the settings as they are, so they count only by their fixes
  rw [applyAll, applyAll, applyFile_congr (mode_collect _ ds) (includeRisky_collect _ ds),
    applyFile_congr (mode_collect _ ds') (includeRisky_collect _ ds'), byFile_collect,
    byFile_collect, needsReview_collect, needsReview_collect, hfindings.countP_eq]
  exact foldl_applyFile_of_perm hunits hapart (hfindings.filterMap contributed?) hfiles hstarts _

/-- Findings in three files and units for two of them, once as they are and once from the back. Two
of the fixes overlap. -/
theorem outcome_of_perm_reversed :
    allKinds.Perm allKinds.reverse ∧ knownUnits.Perm knownUnits.reverse ∧
    SourceUnit.apart knownUnits ∧
    Path.spelledAlike (allKinds.map (·.location.file)) ∧
    StartApart ((allKinds.filterMap contributed?).filter (fresh .all true).admits) ∧
    ((fresh .all true).collect allKinds).applyAll knownUnits =
      ((fresh .all true).collect allKinds.reverse).applyAll knownUnits.reverse := by
  have hapart : SourceUnit.apart knownUnits := List.pairwise_pair.2 (by decide +kernel)
  have hspelled : Path.spelledAlike (allKinds.map (·.location.file)) := by decide +kernel
  have hstarts :
      StartApart ((allKinds.filterMap contributed?).filter (fresh .all true).admits) := by
    decide +kernel
  have hfindings := allKinds.reverse_perm.symm
  have hunits := knownUnits.reverse_perm.symm
  exact ⟨hfindings, hunits, hapart, hspelled, hstarts,
    outcome_of_perm .all true hfindings hunits hapart hspelled hstarts⟩

end CallLint.Fixer
