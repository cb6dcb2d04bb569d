import CallLint.Proofs.Rounding.Removal

/-!
# Safe fixes from end to end

Checking some units with the rounding rule, and applying the fixes that are applied by default,
removes calls that round an `int`: those that a scan of each unit keeps. Everything else in the
units stays.

* `RoundRule.accepted_fixes`: the fixes of a unit that are accepted.
* `RoundRule.safelyFixed_rewrites`: what becomes of the units.
-/

namespace CallLint

namespace RoundRule

variable {e : Engine} {u : SourceUnit}

/-- The roundings of a unit that are removed: those that a scan in the order of their spans
keeps. -/
def removed (e : Engine) (u : SourceUnit) : List Rounding :=
  keep [] ((roundings e u).mergeSort Rounding.listedBefore)

/-- The outcome of checking some units and applying the fixes that are applied by default. -/
def safelyFixed (e : Engine) (units : List SourceUnit) : FixOutcome :=
  (Fixer.empty.collect (e.checkUnits units).diagnostics).applyAll units

/-! ## One unit -/

/-- Roundings that are reported can be removed one by one. -/
theorem removable_of_mem_roundings (halone : alone e)
    (hspans : ∀ r ∈ roundings e u, r.span.isEmpty = false) :
    ∀ r ∈ (roundings e u).mergeSort Rounding.listedBefore, r.Removable e.config.fix u.source := by
  intro r hr
  rw [List.mem_mergeSort] at hr
  rcases List.mem_filterMap.1 hr with ⟨q, hq, hr'⟩
  exact ⟨valid_of_rounding? halone hq hr', hspans r hr⟩

/-- The accepted fixes of a unit are those of the roundings that the scan keeps. -/
theorem accepted_fixes (halone : alone e) (hspans : ∀ r ∈ roundings e u, r.span.isEmpty = false)
    (ds : List Diagnostic) :
    (Fixer.empty.collect ds).accepted u.source (fixes e u) =
      (removed e u).map (Rounding.fix e.config.fix u) := by
  have hnone : ∀ k ∈ ([] : List Rounding), k.Removable e.config.fix u.source := by
    intro k hk
    cases hk
  have haccept := accept_map_fix (u := u) hnone (removable_of_mem_roundings halone hspans)
    (Fixer.together_nil u.source)
  rw [Fixer.accepted, Fixer.queue_collect, queue_fixes halone]
  exact haccept

/-- All other fixes of roundings are dropped, and no other fixes. -/
theorem length_dropped_fixes (halone : alone e)
    (hspans : ∀ r ∈ roundings e u, r.span.isEmpty = false) (ds : List Diagnostic) :
    ((Fixer.empty.collect ds).dropped u.source (fixes e u)).length + (removed e u).length =
      (roundings e u).length := by
  -- every fix of the queue is either accepted or dropped
  have hperm := Fixer.accept_perm u.source [] ((Fixer.empty.collect ds).queue (fixes e u))
  have hlength := hperm.length_eq
  have haccepted := congrArg List.length (accepted_fixes halone hspans ds)
  have hqueue := congrArg List.length (queue_fixes (u := u) halone)
  rw [List.nil_append, List.length_append, List.length_map] at hlength
  rw [Fixer.accepted, List.length_map] at haccepted
  rw [← Fixer.queue_collect Fixer.empty ds, List.length_map, List.length_mergeSort] at hqueue
  rw [Fixer.dropped]
  omega

/-- The text that the fixes of a unit write: the source with a replacement for each removed call. -/
theorem bytes_of_written (halone : alone e) (hspans : ∀ r ∈ roundings e u, r.span.isEmpty = false)
    (ds : List Diagnostic) :
    Text.bytes ((Fixer.empty.collect ds).written u.source (fixes e u)).toList =
      rewriting e.config.fix u.source (removed e u) := by
  have hall := removable_of_mem_roundings halone hspans
  have hsub := keep_sublist ((roundings e u).mergeSort Rounding.listedBefore)
  have hkept : ∀ r ∈ removed e u, r.Removable e.config.fix u.source :=
    fun r hr => hall r (hsub.subset hr)
  -- what the scan keeps is in order and free of overlaps, so one call lies behind the other
  have hsorted := (Rounding.ranking_listedBefore.pairwise_mergeSort (roundings e u)).sublist hsub
  have hwritten := Fixer.apply_written (Fixer.empty.collect ds) u.source (fixes e u)
  rw [accepted_fixes halone hspans, List.map_map] at hwritten
  exact bytes_of_removals hkept (pairwise_behind hkept hsorted (pairwise_keep .nil)) hwritten

/-! ## All units -/

/-- Lengths that add up for every member of a list add up for the whole list. -/
theorem length_flatMap_add {α β γ δ : Type} {f : α → List β} {g : α → List γ} {h : α → List δ}
    {l : List α} (hl : ∀ a ∈ l, (f a).length + (g a).length = (h a).length) :
    (l.flatMap f).length + (l.flatMap g).length = (l.flatMap h).length := by
  induction l with
  | nil => rfl
  | cons a l ih =>
    have ha := hl a List.mem_cons_self
    have hrest := ih fun b hb => hl b (List.mem_cons_of_mem a hb)
    simp only [List.flatMap_cons, List.length_append]
    omega

/-- Safe fixes from end to end. The new text of a unit is its source with each kept call that rounds
an `int` replaced by the text of its argument, in parentheses if the settings ask for them, and no
other byte changed. A unit has a new text if and only if that differs from the source, and no unit
without such calls has one, whatever calls with a `long` it has. The fixes that fail are those of
the calls that are not kept. -/
theorem safelyFixed_rewrites (e : Engine) (halone : alone e) (units : List SourceUnit)
    (hpaths : SourceUnit.apart units)
    (hspans : ∀ u ∈ units, ∀ r ∈ roundings e u, r.span.isEmpty = false) :
    (∀ u ∈ units, ∃ text : String,
      Text.bytes text.toList = rewriting e.config.fix u.source (removed e u) ∧
        (safelyFixed e units).outputs.get? u.path = if text = u.source then none else some text) ∧
    (∀ u ∈ units, roundings e u = [] → (safelyFixed e units).outputs.get? u.path = none) ∧
    (∀ p new, (safelyFixed e units).outputs.get? p = some new → ∃ u ∈ units, u.path.same p = true) ∧
    (safelyFixed e units).failed + (units.flatMap (removed e)).length =
      (units.flatMap (roundings e)).length := by
  let ds := (e.checkUnits units).diagnostics
  have hmode : (Fixer.empty.collect ds).mode ≠ .showOnly := by
    rw [Fixer.mode_collect]
    decide
  have hown : ∀ u ∈ units, ∀ fix ∈ fixes e u, fix.file = u.path :=
    fun u _ fix hfix => file_of_mem_fixes halone hfix
  have hbyFile :
      (Fixer.empty.collect ds).byFile = (units.flatMap (fixes e)).foldl Fixer.gather ∅ := by
    have hds : ds = units.flatMap fun u => (e.checkUnit u).diagnostics :=
      e.diagnostics_checkUnits units
    rw [Fixer.byFile_collect, hds, List.filterMap_flatMap]
    rfl
  have houtputs := fun u hu => Fixer.outputs_applyAll hmode hpaths hown hbyFile (u := u) hu
  -- the fixes by file are those of the units, so all is said unit by unit
  refine ⟨fun u hu => ?_, fun u hu hnone => ?_, fun p new hnew => ?_, ?_⟩
  · exact ⟨_, bytes_of_written halone (hspans u hu) ds, houtputs u hu⟩
  · have haccepted := accepted_fixes halone (hspans u hu) ds
    rw [removed, hnone, List.mergeSort_nil, keep, List.map_nil] at haccepted
    rw [safelyFixed, houtputs u hu, if_pos (Fixer.written_of_accepted_eq_nil haccepted)]
  · exact Fixer.exists_unit_of_outputs hnew
  · rw [safelyFixed, Fixer.failed_applyAll hmode hpaths hown hbyFile]
    exact length_flatMap_add fun u hu => length_dropped_fixes halone (hspans u hu) ds

/-! ## A call inside a call -/

/-- The method that the rule is about. -/
def mathRound : MethodRef := ⟨.named "java.lang.Math", "round", true⟩

/-- A call that rounds a variable. -/
def innerCall : Expr :=
  (Expr.call ⟨15, 28⟩ mathRound
    [(Expr.leaf .identifier ⟨26, 27⟩).withType (.primitive .int)]).withType (.primitive .int)

/-- A unit with a call inside a call of the same method. -/
def nestedCalls : SourceUnit :=
  ⟨⟨"A.java"⟩, "x = Math.round(Math.round(i));", ∅, [.call ⟨4, 29⟩ mathRound [innerCall]]⟩

/-- Both calls are reported. -/
theorem roundings_nestedCalls :
    roundings (.ofConfig .standard) nestedCalls =
      [⟨⟨4, 29⟩, .methodCall, "Math.round(i)"⟩, ⟨⟨15, 28⟩, .identifier, "i"⟩] := by
  have hasked : (Engine.ofConfig .standard).asked nestedCalls =
      [(.call ⟨4, 29⟩ mathRound [innerCall], rule default), (innerCall, rule default)] := by
    rfl
  have halone := alone_ofConfig .standard
  have houter : rounding? (.ofConfig .standard) nestedCalls
      (.call ⟨4, 29⟩ mathRound [innerCall], rule default) =
      some ⟨⟨4, 29⟩, .methodCall, "Math.round(i)"⟩ := by
    have hmem : (.call ⟨4, 29⟩ mathRound [innerCall], rule default) ∈
        (Engine.ofConfig .standard).asked nestedCalls := by simp [hasked]
    exact (rounding?_eq_some_iff halone hmem).2
      ⟨by decide +kernel, FixPlan.validate_eq_ok_iff_fits.2 ⟨by decide +kernel, by decide +kernel⟩,
        innerCall, _, rfl, by decide +kernel, rfl⟩
  have hinner : rounding? (.ofConfig .standard) nestedCalls (innerCall, rule default) =
      some ⟨⟨15, 28⟩, .identifier, "i"⟩ := by
    have hmem : (innerCall, rule default) ∈ (Engine.ofConfig .standard).asked nestedCalls := by
      simp [hasked]
    exact (rounding?_eq_some_iff halone hmem).2
      ⟨by decide +kernel, FixPlan.validate_eq_ok_iff_fits.2 ⟨by decide +kernel, by decide +kernel⟩,
        _, _, rfl, by decide +kernel, rfl⟩
  rw [roundings, hasked, List.filterMap_cons_some houter, List.filterMap_cons_some hinner,
    List.filterMap_nil]

/-- The inner call overlaps the outer one, which comes first. -/
theorem removed_nestedCalls :
    removed (.ofConfig .standard) nestedCalls = [⟨⟨4, 29⟩, .methodCall, "Math.round(i)"⟩] := by
  have hsorted : (roundings (.ofConfig .standard) nestedCalls).mergeSort Rounding.listedBefore =
      roundings (.ofConfig .standard) nestedCalls := by
    -- the kernel does not evaluate a sort
    apply List.mergeSort_of_pairwise
    rw [roundings_nestedCalls]
    decide +kernel
  rw [removed, hsorted, roundings_nestedCalls]
  decide +kernel

/-- The outer call is removed, the inner one is not, and the text is as if written by hand. -/
theorem safelyFixed_rewrites_nestedCalls :
    (safelyFixed (.ofConfig .standard) [nestedCalls]).outputs.get? ⟨"A.java"⟩ =
      some "x = Math.round(i);" ∧
    (safelyFixed (.ofConfig .standard) [nestedCalls]).failed = 1 := by
  have hapart : SourceUnit.apart [nestedCalls] := List.pairwise_singleton _ _
  have hspans : ∀ u ∈ [nestedCalls], ∀ r ∈ roundings (.ofConfig .standard) u,
      r.span.isEmpty = false := by
    intro u hu
    rw [List.mem_singleton.1 hu, roundings_nestedCalls]
    decide
  obtain ⟨htexts, -, -, hfailed⟩ :=
    safelyFixed_rewrites (.ofConfig .standard) (alone_ofConfig .standard) [nestedCalls] hapart
      hspans
  rcases htexts nestedCalls List.mem_cons_self with ⟨text, htext, houtput⟩
  have hwritten : text = "x = Math.round(i);" := by
    apply String.toList_injective
    apply Text.bytes_injective
    rw [htext, removed_nestedCalls]
    decide +kernel
  constructor
  · rw [hwritten, if_neg (by decide)] at houtput
    exact houtput
  · simp only [List.flatMap_cons, List.flatMap_nil, roundings_nestedCalls,
      removed_nestedCalls] at hfailed
    exact Nat.add_right_cancel hfailed

end RoundRule

end CallLint
