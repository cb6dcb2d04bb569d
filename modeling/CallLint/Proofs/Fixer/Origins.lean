import CallLint.Proofs.Engine.Vetting
import CallLint.Proofs.Fixer.Accounting

/-!
# Where the fixes of a new text come from

The engine tells units apart by their place in a batch, the fixer by their paths. So a new text is
made from the source of the first unit with its path and from fixes that were reported for any of
the units with that path. Where these units have one source, every fix is applied to the text that
it was reported for.

* `Fixer.MadeFrom`: the unit and the fixes that a new text is made from.
* `Fixer.exists_unit_of_madeFrom`: the fixes of a new text were reported for units with its path.
* `Fixer.fixes_keep_to_texts`: what holds of all units, and what holds of units that share a source
  with their path.
-/

namespace CallLint

/-- Units with paths that stand for one place have one source. -/
def SourceUnit.Consistent (units : List SourceUnit) : Prop :=
  ∀ u ∈ units, ∀ v ∈ units, u.path.same v.path = true → u.source = v.source

namespace Fixer

/-- A fix is contributed by a finding in the report of a unit. -/
def ReportedFor (e : Engine) (u : SourceUnit) (fix : Fix) : Prop :=
  ∃ d ∈ (e.checkUnit u).diagnostics, contributed? d = some fix

/-- What a new text is made from: the first unit with its path, and the fixes for that path that are
accepted for the source of the unit. -/
structure MadeFrom (f : Fixer) (units : List SourceUnit) (p : Path) (new : String) (u : SourceUnit)
    (used : List Fix) : Prop where
  unit : units.find? (·.path.same p) = some u
  fixes : ∃ own, (p, own) ∈ f.byFile.toList ∧ f.accepted u.source own = used
  text : (FixPlan.merge (used.map (·.plan))).apply u.source = .ok new

variable {f : Fixer} {e : Engine} {units : List SourceUnit} {p : Path} {new : String}

/-- Every new text is made from a unit and from fixes. -/
theorem exists_madeFrom (h : (p, new) ∈ (f.applyAll units).outputs.toList) :
    ∃ u used, MadeFrom f units p new u used := by
  rcases (texts_applyAll f units).exists_rewrite h with ⟨own, u, hown, hrewrite⟩
  rcases rewrite?_eq_some_iff.1 hrewrite with ⟨-, -, hunit, hwritten, -⟩
  have htext := apply_written f u.source own
  rw [hwritten] at htext
  exact ⟨u, f.accepted u.source own, hunit, ⟨own, hown, rfl⟩, htext⟩

/-- The accepted fixes of a file are fixes of the file. -/
theorem mem_of_mem_accepted {source : String} {fixes : List Fix} {fix : Fix}
    (h : fix ∈ f.accepted source fixes) : fix ∈ fixes := by
  have hqueue : fix ∈ f.queue fixes :=
    (accept_perm source [] (f.queue fixes)).mem_iff.1 (List.mem_append_left _ h)
  exact (queue_append_skipped_perm f fixes).mem_iff.1 (List.mem_append_left _ hqueue)

/-- The findings of a unit are in the file of the unit. -/
theorem file_of_mem_checkUnit {u : SourceUnit} {d : Diagnostic}
    (h : d ∈ (e.checkUnit u).diagnostics) : d.location.file = u.path := by
  rcases List.mem_filterMap.1 ((e.isStableSort_checkUnit u).perm.mem_iff.1 h) with ⟨q, -, hq⟩
  rcases Engine.finding?_eq_some_iff.1 hq with ⟨said, -, rfl⟩
  rfl

/-- Every fix was reported for a unit, and is for the path of that unit. -/
theorem exists_unit_of_contributed {fix : Fix}
    (h : fix ∈ (e.checkUnits units).diagnostics.filterMap contributed?) :
    ∃ v ∈ units, ReportedFor e v fix ∧ fix.file = v.path := by
  rcases List.mem_filterMap.1 h with ⟨d, hd, hfix⟩
  rw [Engine.diagnostics_checkUnits] at hd
  rcases List.mem_flatMap.1 hd with ⟨v, hv, hd⟩
  refine ⟨v, hv, ⟨d, hd, hfix⟩, ?_⟩
  rw [(eq_of_contributed? hfix).2, file_of_mem_checkUnit hd]

/-- The fixes that are kept under a path are for that path. -/
theorem same_of_mem_gathered {fixes own : List Fix} (h : (p, own) ∈ (fixes.foldl gather ∅).toList)
    {fix : Fix} (hfix : fix ∈ own) : fix.file.same p = true := by
  have hget := get?_gathered fixes ∅ p
  rw [SortedMap.get?_eq_some_of_mem h Std.ReflCmp.compare_self, SortedMap.get?_empty] at hget
  split at hget
  · cases hget
  · cases hget
    exact (List.mem_filter.1 hfix).2

/-! ## What is known of every new text -/

variable {mode : FixMode} {risky : Bool}

/-- What is done with the findings of some units: their fixes are collected and applied to the same
units. -/
def applyFindings (mode : FixMode) (risky : Bool) (e : Engine) (units : List SourceUnit) :
    FixOutcome :=
  ((fresh mode risky).collect (e.checkUnits units).diagnostics).applyAll units

/-- The fixes that a new text is made from were reported for units with its path. -/
theorem exists_unit_of_madeFrom {u : SourceUnit} {used : List Fix}
    (h : MadeFrom ((fresh mode risky).collect (e.checkUnits units).diagnostics) units p new u used)
    {fix : Fix} (hfix : fix ∈ used) :
    ∃ v ∈ units, ReportedFor e v fix ∧ v.path.same u.path = true := by
  rcases h.fixes with ⟨own, hown, rfl⟩
  rw [byFile_collect] at hown
  have hmem := mem_of_mem_accepted hfix
  rcases exists_unit_of_contributed (mem_of_mem_gathered hown hmem) with ⟨v, hv, hreported, hfile⟩
  have hfixes : fix.file.same p = true := same_of_mem_gathered hown hmem
  have hunit : u.path.same p = true := by simpa using List.find?_some h.unit
  refine ⟨v, hv, hreported, ?_⟩
  -- both paths stand for the place that the new text is for
  rw [← hfile]
  simp only [Path.same, decide_eq_true_eq] at hfixes hunit ⊢
  rw [hfixes, hunit]

/-- Every new text is for the path of a unit that a fix was reported for. -/
theorem exists_unit_of_mem_outputs
    (h : (p, new) ∈ (applyFindings mode risky e units).outputs.toList) :
    ∃ v ∈ units, v.path = p ∧ ∃ fix, ReportedFor e v fix := by
  rcases exists_madeFrom h with ⟨u, used, hmade⟩
  rcases hmade.fixes with ⟨own, hown, -⟩
  rw [byFile_collect] at hown
  rcases key_of_mem_gathered hown with ⟨fix, hfix, rfl⟩ | ⟨old, hold, -⟩
  · rcases exists_unit_of_contributed hfix with ⟨v, hv, hreported, hfile⟩
    exact ⟨v, hv, hfile.symm, fix, hreported⟩
  · cases hold

/-- All fixes are applied to the text that they were reported for: a new text is made from fixes for
units whose source is the one that it is made from. -/
def KeepsToTexts (mode : FixMode) (risky : Bool) (e : Engine) (units : List SourceUnit) : Prop :=
  ∀ p new, (p, new) ∈ (applyFindings mode risky e units).outputs.toList →
    ∃ u used,
      MadeFrom ((fresh mode risky).collect (e.checkUnits units).diagnostics) units p new u used ∧
      ∀ fix ∈ used, ∃ v ∈ units, ReportedFor e v fix ∧ v.source = u.source

/-- The fixes of a new text were reported for units with its path, which may be several. Where units
that share a path share their source, the fixes are applied to the text that they were reported
for. -/
theorem fixes_keep_to_texts (mode : FixMode) (risky : Bool) (e : Engine) (units : List SourceUnit) :
    (∀ p new, (p, new) ∈ (applyFindings mode risky e units).outputs.toList →
      ∃ u used,
        MadeFrom ((fresh mode risky).collect (e.checkUnits units).diagnostics) units p new u used ∧
        ∀ fix ∈ used, ∃ v ∈ units, ReportedFor e v fix ∧ v.path.same u.path = true) ∧
      (SourceUnit.Consistent units → KeepsToTexts mode risky e units) := by
  constructor
  · intro p new h
    rcases exists_madeFrom h with ⟨u, used, hmade⟩
    exact ⟨u, used, hmade, fun fix hfix => exists_unit_of_madeFrom hmade hfix⟩
  · intro hconsistent p new h
    rcases exists_madeFrom h with ⟨u, used, hmade⟩
    refine ⟨u, used, hmade, fun fix hfix => ?_⟩
    rcases exists_unit_of_madeFrom hmade hfix with ⟨v, hv, hreported, hsame⟩
    exact ⟨v, hv, hreported, hconsistent v hv u (List.mem_of_find?_eq_some hmade.unit) hsame⟩

/-! ## Two units with one path -/

/-- A unit with a call that is not needed. -/
def needless : SourceUnit :=
  ⟨⟨"A.java"⟩, "Math.round(i);", ∅,
    [.call ⟨0, 13⟩ ⟨.named "java.lang.Math", "round", true⟩
      [(Expr.leaf .identifier ⟨11, 12⟩).withType (.primitive .int)]]⟩

/-- A unit without calls that has the same path. -/
def callless (source : String) : SourceUnit := ⟨⟨"A.java"⟩, source, ∅, []⟩

/-- The trees of one source may be spread over units. -/
theorem fixes_keep_to_texts_spread :
    KeepsToTexts .safeOnly false (.ofConfig .standard) [callless needless.source, needless] ∧
      (applyFindings .safeOnly false (.ofConfig .standard)
          [callless needless.source, needless]).outputs.toList =
        [(⟨"A.java"⟩, "i;")] := by
  have hconsistent : SourceUnit.Consistent [callless needless.source, needless] := by
    intro u hu v hv _
    simp only [List.mem_cons, List.not_mem_nil, or_false] at hu hv
    rcases hu with rfl | rfl <;> rcases hv with rfl | rfl <;> rfl
  exact ⟨(fixes_keep_to_texts .safeOnly false (.ofConfig .standard) _).2 hconsistent,
    by decide +kernel⟩

/-- The fix for the second unit is applied to the text of the first one. -/
theorem not_keepsToTexts_needless :
    ¬ KeepsToTexts .safeOnly false (.ofConfig .standard)
      [callless "String s = null;", needless] := by
  intro h
  have houtput : (⟨"A.java"⟩, "ill;") ∈ (applyFindings .safeOnly false (.ofConfig .standard)
      [callless "String s = null;", needless]).outputs.toList := by decide +kernel
  rcases h _ _ houtput with ⟨u, used, hmade, hfixes⟩
  obtain rfl : callless "String s = null;" = u := Option.some.inj hmade.unit
  cases used with
  -- without fixes the text would be the one that was there
  | nil => exact absurd hmade.text (by decide +kernel)
  | cons fix rest =>
    rcases hfixes fix List.mem_cons_self with ⟨v, hv, ⟨d, hd, -⟩, hsource⟩
    simp only [List.mem_cons, List.not_mem_nil, or_false] at hv
    -- the only unit with this text has no findings
    rcases hv with rfl | rfl
    · have hnone :
          ((Engine.ofConfig .standard).checkUnit (callless "String s = null;")).diagnostics =
            [] := by
        decide +kernel
      rw [hnone] at hd
      cases hd
    · exact absurd hsource (by decide)

end Fixer

end CallLint
