import CallLint.Proofs.Rounding.Examining

/-!
# Only vetted findings are reported

What a rule finds gets the severity that is configured for the rule, and is vetted before it is
reported: an error has to offer a fix or say something, and a fix has to be applicable to the source
of the unit. What is not vetted is a defect of the rule, so nothing that a rule finds gets lost.

* `Vetted`: what a finding needs.
* `Engine.evaluate_of_vetted`, `Engine.evaluate_of_silent`, `Engine.evaluate_of_unusable`: the three
  ends of a finding.
* `Engine.reported_of_answer`, `Engine.recorded_of_answer`: where they end up in the report of a
  unit.
* `Engine.only_vetted_reported`: all that, and what it means for the reports of units and batches.
-/

namespace CallLint

/-- Whether a finding is an error that offers no fix and says nothing. -/
def Diagnostic.Mute (d : Diagnostic) : Prop :=
  d.severity = .error ∧ d.fix = none ∧ Text.trim d.message = ""

/-- What a finding needs to be reported about a source: it is not mute, and its fix is accepted. -/
structure Vetted (source : String) (d : Diagnostic) : Prop where
  speaks : ¬ d.Mute
  accepted : ∀ plan, d.fix = some plan → plan.validate source = .ok ()

/-- The test for such findings is right. -/
theorem Diagnostic.isSilent_iff_mute {d : Diagnostic} : d.isSilent = true ↔ d.Mute := by
  rw [isSilent, Mute, Text.trim_eq_empty_iff, Bool.and_eq_true, Bool.and_eq_true, isError,
    decide_eq_true_eq, Option.isNone_iff_eq_none, List.all_eq_true, and_assoc]

/-- What is let through is what has been vetted. -/
theorem sound_iff_vetted {source : String} {d : Diagnostic} :
    Engine.Sound source d ↔ Vetted source d := by
  constructor
  · intro h
    refine ⟨fun hmute => ?_, h.fixes⟩
    have hspeaks := h.speaks
    rw [Diagnostic.isSilent_iff_mute.2 hmute] at hspeaks
    cases hspeaks
  · intro h
    refine ⟨?_, h.accepted⟩
    rw [← Bool.not_eq_true, Diagnostic.isSilent_iff_mute]
    exact h.speaks

namespace Engine

variable {e : Engine} {u : SourceUnit} {r : Rule} {call : Expr} {env : Environment}
  {found d : Diagnostic}

/-! ## The ends of a finding -/

/-- What a rule finds is vetted with the severity that is configured. -/
theorem evaluate_of_check (h : r.check call env = .ok (some found)) :
    e.evaluate r call env = (vet r env.source (e.adjust r found)).map some := by
  rw [evaluate, h]
  simp only [bind, Except.bind]
  cases vet r env.source (e.adjust r found) <;> rfl

/-- A finding is let through exactly if it is vetted. -/
theorem evaluate_of_vetted (h : r.check call env = .ok (some found)) :
    e.evaluate r call env = .ok (some (e.adjust r found)) ↔
      Vetted env.source (e.adjust r found) := by
  rw [evaluate_eq_some_iff, ← sound_iff_vetted]
  constructor
  · rintro ⟨-, -, -, hsound⟩
    exact hsound
  · intro hsound
    exact ⟨found, h, rfl, hsound⟩

/-- A mute finding is a defect, under the name that it gives itself. -/
theorem evaluate_of_silent (h : r.check call env = .ok (some found))
    (hmute : (e.adjust r found).Mute) :
    e.evaluate r call env = .error (.silent found.rule found.span) := by
  have hvalidate : (e.adjust r found).validate = .error (.silent found.rule found.span) :=
    if_pos (Diagnostic.isSilent_iff_mute.2 hmute)
  rw [evaluate_of_check h, vet, hvalidate]
  rfl

/-- A finding that is not mute, but has a fix that is refused, is a defect, under the name of the
rule. -/
theorem evaluate_of_unusable (h : r.check call env = .ok (some found))
    (hspeaks : ¬ (e.adjust r found).Mute) {plan : FixPlan} {cause : EditError}
    (hfix : found.fix = some plan) (hrefused : plan.validate env.source = .error cause) :
    e.evaluate r call env = .error (.unusableFix r.id cause) := by
  -- what is said passes, so the fix is looked at
  have hsilent : ¬ (e.adjust r found).isSilent = true :=
    fun hs => hspeaks (Diagnostic.isSilent_iff_mute.1 hs)
  have hvalidate : (e.adjust r found).validate = .ok () := if_neg hsilent
  have hplan : (e.adjust r found).fix = some plan := hfix
  rw [evaluate_of_check h, vet, hvalidate]
  simp only [bind, Except.bind, hplan, hrefused]
  rfl

/-- A finding that is not vetted is mute, or else its fix is refused. -/
theorem exists_objection {source : String} (h : ¬ Vetted source d) :
    d.Mute ∨ ¬ d.Mute ∧ ∃ plan cause, d.fix = some plan ∧ plan.validate source = .error cause := by
  by_cases hmute : d.Mute
  · exact .inl hmute
  · refine .inr ⟨hmute, Classical.byContradiction fun hnone => h ⟨hmute, fun plan hplan => ?_⟩⟩
    cases hvalid : plan.validate source with
    | ok => rfl
    | error cause => exact absurd ⟨plan, cause, hplan, hvalid⟩ hnone

/-! ## The places in a report -/

/-- The report of a unit lists a finding for one of its questions, and the defects are those of the
other questions. -/
def Reported (e : Engine) (u : SourceUnit) (before after : List (Expr × Rule)) (d : Diagnostic) :
    Prop :=
  IsStableSort listedBefore
      (before.filterMap (e.finding? u) ++
        d.locate u.path u.source :: after.filterMap (e.finding? u))
      (e.checkUnit u).diagnostics ∧
    (e.checkUnit u).defects = (before ++ after).filterMap (e.defect? u)

/-- The report of a unit has a defect for one of its questions, and the findings are those of the
other questions. -/
def Recorded (e : Engine) (u : SourceUnit) (before after : List (Expr × Rule)) (cause : RuleError) :
    Prop :=
  IsStableSort listedBefore ((before ++ after).filterMap (e.finding? u))
      (e.checkUnit u).diagnostics ∧
    (e.checkUnit u).defects =
      before.filterMap (e.defect? u) ++ cause :: after.filterMap (e.defect? u)

variable {before after : List (Expr × Rule)} {q : Expr × Rule} {cause : RuleError}

/-- A question that finds something is reported in its place. -/
theorem reported_of_answer (hasked : e.asked u = before ++ q :: after)
    (h : e.answer u q = .ok (some d)) :
    Reported e u before after d := by
  have hfinding : e.finding? u q = some (d.locate u.path u.source) := by rw [finding?, h]; rfl
  have hdefect : e.defect? u q = none := by rw [defect?, h]; rfl
  constructor
  · have hsorted := isStableSort_checkUnit e u
    rwa [hasked, List.filterMap_append, List.filterMap_cons_some hfinding] at hsorted
  · rw [defects_checkUnit, hasked, List.filterMap_append, List.filterMap_cons_none hdefect,
      List.filterMap_append]

/-- A question with a defect is recorded in its place. -/
theorem recorded_of_answer (hasked : e.asked u = before ++ q :: after)
    (h : e.answer u q = .error cause) :
    Recorded e u before after cause := by
  have hfinding : e.finding? u q = none := by rw [finding?, h]; rfl
  have hdefect : e.defect? u q = some cause := by rw [defect?, h]; rfl
  constructor
  · have hsorted := isStableSort_checkUnit e u
    rwa [hasked, List.filterMap_append, List.filterMap_cons_none hfinding,
      ← List.filterMap_append] at hsorted
  · rw [defects_checkUnit, hasked, List.filterMap_append, List.filterMap_cons_some hdefect]

/-- No question is both reported and recorded: the numbers of findings differ. -/
theorem not_reported_of_recorded (hrecorded : Recorded e u before after cause) :
    ¬ Reported e u before after d := by
  intro hreported
  have hlength := hrecorded.1.perm.length_eq.symm.trans hreported.1.perm.length_eq
  rw [List.filterMap_append, List.length_append, List.length_append, List.length_cons] at hlength
  omega

/-! ## What is reported -/

/-- Every finding that is listed has been vetted. -/
theorem vetted_of_mem_diagnostics (h : d ∈ (e.checkUnit u).diagnostics) : Vetted u.source d := by
  rcases List.mem_filterMap.1 ((isStableSort_checkUnit e u).perm.mem_iff.1 h) with ⟨q, -, hq⟩
  rcases finding?_eq_some_iff.1 hq with ⟨said, hanswer, rfl⟩
  rcases evaluate_eq_some_iff.1 hanswer with ⟨-, -, -, hsound⟩
  have hvetted := sound_iff_vetted.1 hsound
  -- the place of a finding plays no part in the vetting
  exact ⟨hvetted.speaks, hvetted.accepted⟩

/-- The fix of a vetted finding can be applied. -/
theorem applies_of_vetted {source : String} (h : Vetted source d) {plan : FixPlan}
    (hplan : d.fix = some plan) : ∃ out, plan.apply source = .ok out :=
  FixPlan.validate_eq_ok_iff.1 (h.accepted plan hplan)

/-- The rule that comes with the library says all it says with one severity, so what is reported has
the one that is configured, or else the one of the rule. -/
theorem severity_of_rule {s : FixSettings} (hq : q.2 = RoundRule.rule s)
    (h : e.finding? u q = some d) :
    d.severity = e.effectiveSeverity (RoundRule.rule s) := by
  rcases finding?_eq_some_iff.1 h with ⟨said, hanswer, rfl⟩
  rcases evaluate_eq_some_iff.1 hanswer with ⟨found, hcheck, rfl, -⟩
  -- neither its place nor the configured severity is known to the rule
  rw [hq] at hcheck ⊢
  rcases RoundRule.exists_rounds_of_check hcheck with ⟨f, argument, text, -, -, rfl⟩
  show (e.config.severityOf? (RoundRule.rule s).id).getD
      (RoundRule.said s f q.1 argument text u.environment).severity
    = e.effectiveSeverity (RoundRule.rule s)
  rw [RoundRule.severity_said]
  rfl

/-- Only vetted findings are reported, and all that is not vetted is a defect. A finding `found`
counts with the severity that is configured for its rule, in `e.adjust r found`. It is reported
exactly if it is vetted; if not, it is recorded as mute, or else as having a fix that is refused,
and it takes nothing away from the other questions. So every finding in the report of a unit or of a
batch offers a fix that can be applied to the source of its own unit, or none, and every error has a
fix or words. The findings of the rule that comes with the library have the severity that the engine
announces for it. -/
theorem only_vetted_reported (e : Engine) :
    (∀ (r : Rule) (call : Expr) (env : Environment) (found : Diagnostic),
      r.check call env = .ok (some found) →
        (e.evaluate r call env = .ok (some (e.adjust r found)) ↔
          Vetted env.source (e.adjust r found)) ∧
        ((e.adjust r found).Mute → e.evaluate r call env = .error (.silent found.rule found.span)) ∧
        ∀ plan cause, ¬ (e.adjust r found).Mute → found.fix = some plan →
          plan.validate env.source = .error cause →
            e.evaluate r call env = .error (.unusableFix r.id cause)) ∧
    (∀ (u : SourceUnit) before call r after found,
      e.asked u = before ++ (call, r) :: after → r.check call u.environment = .ok (some found) →
        (Reported e u before after (e.adjust r found) ↔ Vetted u.source (e.adjust r found)) ∧
        (¬ Vetted u.source (e.adjust r found) →
          (e.adjust r found).Mute ∧ Recorded e u before after (.silent found.rule found.span) ∨
          ¬ (e.adjust r found).Mute ∧ ∃ plan cause, found.fix = some plan ∧
            plan.validate u.source = .error cause ∧
            Recorded e u before after (.unusableFix r.id cause))) ∧
    (∀ u : SourceUnit, ∀ d ∈ (e.checkUnit u).diagnostics,
      ¬ d.Mute ∧ ∀ plan, d.fix = some plan → ∃ out, plan.apply u.source = .ok out) ∧
    (∀ units : List SourceUnit,
      (e.checkUnits units).diagnostics = units.flatMap fun u => (e.checkUnit u).diagnostics) ∧
    ∀ (u : SourceUnit) (q : Expr × Rule) (s : FixSettings) (d : Diagnostic),
      q.2 = RoundRule.rule s → e.finding? u q = some d →
        d.severity = e.effectiveSeverity (RoundRule.rule s) := by
  refine ⟨?_, ?_, ?_, diagnostics_checkUnits e, ?_⟩
  · -- one evaluation
    intro r call env found hcheck
    refine ⟨evaluate_of_vetted hcheck, evaluate_of_silent hcheck, ?_⟩
    intro plan cause hspeaks hfix hrefused
    exact evaluate_of_unusable hcheck hspeaks hfix hrefused
  · -- one question of a unit
    intro u before call r after found hasked hcheck
    have hreport : Vetted u.source (e.adjust r found) →
        Reported e u before after (e.adjust r found) :=
      fun hvetted => reported_of_answer hasked ((evaluate_of_vetted hcheck).2 hvetted)
    have hrecord : ¬ Vetted u.source (e.adjust r found) →
        (e.adjust r found).Mute ∧ Recorded e u before after (.silent found.rule found.span) ∨
        ¬ (e.adjust r found).Mute ∧ ∃ plan cause, found.fix = some plan ∧
          plan.validate u.source = .error cause ∧
          Recorded e u before after (.unusableFix r.id cause) := by
      intro hnot
      rcases exists_objection hnot with hmute | ⟨hspeaks, plan, cause, hplan, hrefused⟩
      · exact .inl ⟨hmute, recorded_of_answer hasked (evaluate_of_silent hcheck hmute)⟩
      · exact .inr ⟨hspeaks, plan, cause, hplan, hrefused,
          recorded_of_answer hasked (evaluate_of_unusable hcheck hspeaks hplan hrefused)⟩
    refine ⟨⟨fun hreported => ?_, hreport⟩, hrecord⟩
    -- a question that is recorded as a defect is not reported as well
    by_contra hnot
    rcases hrecord hnot with ⟨-, hrecorded⟩ | ⟨-, plan, cause, -, -, hrecorded⟩
    · exact not_reported_of_recorded hrecorded hreported
    · exact not_reported_of_recorded hrecorded hreported
  · -- the findings of a unit
    intro u d hd
    have hvetted := vetted_of_mem_diagnostics hd
    exact ⟨hvetted.speaks, fun plan hplan => applies_of_vetted hvetted hplan⟩
  · intro u q s d hq hfinding
    exact severity_of_rule hq hfinding

/-! ## A harmless finding that is promoted -/

/-- A rule that warns at every call, without fix and words. -/
def murmuring : Rule :=
  ⟨.plain "murmuring" "has nothing to say", .all [],
    fun call _ => .ok (.plain "murmuring" .warning " " call.span)⟩

/-- A configuration that makes an error of what the rule says. -/
def promoting : Config :=
  { Config.standard with
    rules :=
      { (default : RuleSettings) with severity := SortedMap.empty.insert "murmuring" .error } }

/-- A unit with one call. -/
def oneCall : SourceUnit := ⟨⟨"A.java"⟩, "f();", ∅, [.leaf .methodCall ⟨0, 3⟩]⟩

/-- A warning without words is reported as it is, and is a defect once it has been made an error. -/
theorem only_vetted_reported_promoted :
    ((Engine.mk .standard [murmuring]).checkUnit oneCall).diagnostics
      = [(Diagnostic.plain "murmuring" .warning " " ⟨0, 3⟩).locate ⟨"A.java"⟩ "f();"] ∧
    ((Engine.mk promoting [murmuring]).checkUnit oneCall).diagnostics = [] ∧
    ((Engine.mk promoting [murmuring]).checkUnit oneCall).defects =
      [.silent "murmuring" ⟨0, 3⟩] := by
  obtain ⟨-, hplain, -⟩ := only_vetted_reported ⟨.standard, [murmuring]⟩
  obtain ⟨-, hpromoted, -⟩ := only_vetted_reported ⟨promoting, [murmuring]⟩
  constructor
  · have hvetted : Vetted "f();" (Diagnostic.plain "murmuring" .warning " " ⟨0, 3⟩) := by
      refine ⟨?_, fun plan hplan => by cases hplan⟩
      rintro ⟨herror, -⟩
      cases herror
    have hreported :=
      (hplain oneCall [] (.leaf .methodCall ⟨0, 3⟩) murmuring [] _ rfl rfl).1.2 hvetted
    exact List.perm_singleton.1 hreported.1.perm
  · have hmute : ((Engine.mk promoting [murmuring]).adjust murmuring
        (.plain "murmuring" .warning " " ⟨0, 3⟩)).Mute :=
      ⟨by decide +kernel, rfl, by decide +kernel⟩
    have hnot := hpromoted oneCall [] (.leaf .methodCall ⟨0, 3⟩) murmuring [] _ rfl rfl
    rcases hnot.2 fun hvetted => hvetted.speaks hmute with ⟨-, hrecorded⟩ | ⟨hspeaks, -⟩
    · exact ⟨List.perm_nil.1 hrecorded.1.perm, hrecorded.2⟩
    · exact absurd hmute hspeaks

end Engine

end CallLint
