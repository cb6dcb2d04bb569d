import CallLint.Proofs.Engine.Vetting
import CallLint.Proofs.Passes

/-!
# A call on its own and a unit with one call

A call can be checked on its own, and then the first defect ends the check and the findings before
it are lost. A unit with that one call is checked to the end: each defect is recorded, and each
finding is listed. If the unit ignores no rule, then the two ways agree as far as the first one
goes.

* `SourceUnit.SoleCall`: a unit with one tree, whose root is its only call.
* `Engine.asked_of_soleCall`: what such a unit is asked about.
* `Engine.checkCallSite_eq_ok_iff`, `Engine.checkCallSite_eq_error_iff`: what checking a call on its
  own comes to.
* `Engine.lone_call_agrees`: the two ways, side by side.
-/

namespace CallLint

/-- Whether a unit has one tree, whose root is a call and has no call below it. -/
structure SourceUnit.SoleCall (u : SourceUnit) (call : Expr) : Prop where
  tree : u.trees = [call]
  root : call.kind = .methodCall
  below : ∀ node ∈ Expr.preorderAll call.children, node.kind ≠ .methodCall

/-- Such a unit has this call and no other one. -/
theorem SourceUnit.SoleCall.calls_eq {u : SourceUnit} {call : Expr} (h : u.SoleCall call) :
    u.calls = [call] := by
  have hnodes : u.nodes = call :: Expr.preorderAll call.children := by
    rw [nodes, h.tree, Expr.preorderAll, Expr.preorderAll, List.append_nil, Expr.preorder_eq]
  have hbelow : (Expr.preorderAll call.children).filter (·.kind = .methodCall) = [] := by
    rw [List.filter_eq_nil_iff]
    intro node hnode
    rw [decide_eq_true_eq]
    exact h.below node hnode
  rw [calls, hnodes, List.filter_cons_of_pos (by simpa using h.root), hbelow]

namespace Outcome

/-- An outcome is a defect, or else it says what was found. -/
theorem defect?_eq_none_iff {outcome : Outcome} :
    outcome.defect? = none ↔ outcome = .ok outcome.finding? := by
  cases outcome <;> simp [defect?, finding?]

@[simp] theorem exists_eq_ok_iff {outcome : Outcome} :
    (∃ found, outcome = .ok found) ↔ outcome.defect? = none := by
  cases outcome <;> simp [defect?]

end Outcome

namespace Engine

variable {e : Engine} {u : SourceUnit} {call : Expr} {env : Environment}

/-! ## A call on its own -/

/-- A call on its own has findings if no rule has a defect there, and these are the findings of all
rules in the order in which the rules were registered. -/
theorem checkCallSite_eq_ok_iff {ds : List Diagnostic} :
    e.checkCallSite call env = .ok ds ↔
      (∀ r ∈ e.rules, (e.evaluate r call env).defect? = none) ∧
        e.rules.filterMap (fun r => (e.evaluate r call env).finding?) = ds := by
  have hpass (hfine : ∀ r ∈ e.rules, (e.evaluate r call env).defect? = none) :
      e.rules.mapM (fun r => e.evaluate r call env) =
        .ok (e.rules.map fun r => (e.evaluate r call env).finding?) :=
    mapM_eq_ok_map fun r hr => Outcome.defect?_eq_none_iff.1 (hfine r hr)
  have hfindings : (e.rules.map fun r => (e.evaluate r call env).finding?).filterMap id =
      e.rules.filterMap fun r => (e.evaluate r call env).finding? := List.filterMap_map
  rw [checkCallSite, bind_eq_ok_iff, ← hfindings]
  constructor
  · -- there are answers, so no rule has a defect, and the answers are known
    rintro ⟨answers, hanswers, hds⟩
    have hfine : ∀ r ∈ e.rules, (e.evaluate r call env).defect? = none := by
      intro r hr
      exact Outcome.exists_eq_ok_iff.1 (exists_mapM_eq_ok_iff.1 ⟨answers, hanswers⟩ r hr)
    rw [hpass hfine, Except.ok.injEq] at hanswers
    rw [hanswers]
    exact ⟨hfine, Except.ok.inj hds⟩
  · rintro ⟨hfine, rfl⟩
    exact ⟨_, hpass hfine, rfl⟩

/-- A call on its own has a defect if some rule has one there, and it is that of the first such
rule. -/
theorem checkCallSite_eq_error_iff {cause : RuleError} :
    e.checkCallSite call env = .error cause ↔
      ∃ before r after, e.rules = before ++ r :: after ∧
        (∀ b ∈ before, (e.evaluate b call env).defect? = none) ∧
        e.evaluate r call env = .error cause := by
  -- only asking the rules can fail; what is done with their answers cannot
  have hpass : e.checkCallSite call env = .error cause ↔
      e.rules.mapM (fun r => e.evaluate r call env) = .error cause := by
    rw [checkCallSite]
    cases (e.rules.mapM fun r => e.evaluate r call env) <;>
      simp [bind, Except.bind, pure, Except.pure]
  rw [hpass, mapM_eq_error_iff]
  simp only [Outcome.exists_eq_ok_iff]

/-! ## A unit with one call -/

/-- A unit with one call that ignores no rule is asked by all rules about that call. -/
theorem asked_of_soleCall (h : u.SoleCall call)
    (hall : ∀ r ∈ e.rules, e.config.ignores r.id u.path = false) :
    e.asked u = e.rules.map fun r => (call, r) := by
  have hrules : e.rulesFor u.path = e.rules := by
    rw [rulesFor, List.filter_eq_self]
    intro r hr
    rw [hall r hr, Bool.not_false]
  rw [asked, h.calls_eq, hrules, List.flatMap_singleton]

section SoleCall

variable (h : u.SoleCall call) (hall : ∀ r ∈ e.rules, e.config.ignores r.id u.path = false)
include h hall

/-- All rules are asked about the call, so the defects are theirs. -/
theorem defects_of_soleCall :
    (e.checkUnit u).defects = e.rules.filterMap fun r =>
      (e.evaluate r call u.environment).defect? := by
  rw [defects_checkUnit, asked_of_soleCall h hall, List.filterMap_map]
  rfl

/-- The findings are those of all rules, ranked by place. -/
theorem isStableSort_of_soleCall :
    IsStableSort listedBefore
      ((e.rules.filterMap fun r =>
        (e.evaluate r call u.environment).finding?).map (·.locate u.path u.source))
      (e.checkUnit u).diagnostics := by
  have hsorted := isStableSort_checkUnit e u
  rw [asked_of_soleCall h hall, List.filterMap_map] at hsorted
  rw [List.map_filterMap]
  exact hsorted

/-- A unit with one call has no defects if no rule has one at the call. -/
theorem defects_eq_nil_iff_of_soleCall :
    (e.checkUnit u).defects = [] ↔
      ∀ r ∈ e.rules, (e.evaluate r call u.environment).defect? = none := by
  rw [defects_of_soleCall h hall, List.filterMap_eq_nil_iff]

end SoleCall

/-- A call on its own and a unit with that one call. Let a unit have one tree, whose root is its
only call, and let it ignore no rule, whatever the rules answer. The call has findings on its own
exactly if the unit has no defects, and then the unit lists these findings, with their places,
ranked by start, end and rule, those that are ranked alike in the order in which they were found.
Otherwise what goes wrong at the call is the first defect of the unit, and it is what goes wrong in
the first rule that has a defect, in the order in which the rules were registered. -/
theorem lone_call_agrees (h : u.SoleCall call)
    (hall : ∀ r ∈ e.rules, e.config.ignores r.id u.path = false) :
    ((∃ ds, e.checkCallSite call u.environment = .ok ds) ↔ (e.checkUnit u).defects = []) ∧
    (∀ ds, e.checkCallSite call u.environment = .ok ds →
      IsStableSort listedBefore (ds.map (·.locate u.path u.source)) (e.checkUnit u).diagnostics) ∧
    ∀ cause, e.checkCallSite call u.environment = .error cause →
      ∃ before r after, e.rules = before ++ r :: after ∧
        (∀ b ∈ before, ∃ found, e.evaluate b call u.environment = .ok found) ∧
        e.evaluate r call u.environment = .error cause ∧
        (e.checkUnit u).defects =
          cause :: after.filterMap fun r => (e.evaluate r call u.environment).defect? := by
  refine ⟨?_, ?_, ?_⟩
  · -- both sides say that no rule has a defect at the call
    rw [defects_eq_nil_iff_of_soleCall h hall]
    simp only [checkCallSite_eq_ok_iff, exists_and_left, exists_eq', and_true]
  · intro ds hds
    rw [← (checkCallSite_eq_ok_iff.1 hds).2]
    exact isStableSort_of_soleCall h hall
  · intro cause hcause
    rcases checkCallSite_eq_error_iff.1 hcause with ⟨before, r, after, hrules, hbefore, hr⟩
    have hdefect : (e.evaluate r call u.environment).defect? = some cause := by
      rw [hr]
      rfl
    refine ⟨before, r, after, hrules, fun b hb => Outcome.exists_eq_ok_iff.2 (hbefore b hb), hr, ?_⟩
    -- the rules in front have no defects, so the one of `r` comes first
    rw [defects_of_soleCall h hall, hrules, List.filterMap_append,
      List.filterMap_eq_nil_iff.2 hbefore, List.nil_append, List.filterMap_cons, hdefect]

/-! ## Findings out of order, and a defect between them -/

/-- A rule that points to a place of its own, wherever it is asked. -/
def pointing (id : String) (place : Span) : Rule :=
  ⟨.plain id "points to a place", .all [], fun _ _ => .ok (.plain id .warning "here" place)⟩

/-- Two rules of one name point to places in reverse order. Another rule between them that fails
takes both findings away from the call on its own, and nothing from the unit. -/
theorem lone_call_agrees_pointing :
    oneCall.SoleCall (.leaf .methodCall ⟨0, 3⟩) ∧
    IsStableSort listedBefore
      [(Diagnostic.plain "p" .warning "here" ⟨2, 3⟩).locate ⟨"A.java"⟩ "f();",
        (Diagnostic.plain "p" .warning "here" ⟨0, 1⟩).locate ⟨"A.java"⟩ "f();"]
      ((Engine.mk .standard [pointing "p" ⟨2, 3⟩, pointing "p" ⟨0, 1⟩]).checkUnit
        oneCall).diagnostics ∧
    ∃ later, ((Engine.mk .standard [pointing "p" ⟨2, 3⟩, failing, pointing "p" ⟨0, 1⟩]).checkUnit
      oneCall).defects = .invariant "failing" ⟨0, 3⟩ "no answer" :: later := by
  have hcall : oneCall.SoleCall (.leaf .methodCall ⟨0, 3⟩) := ⟨rfl, rfl, List.forall_mem_nil _⟩
  obtain ⟨-, hfindings, -⟩ :=
    lone_call_agrees (e := ⟨.standard, [pointing "p" ⟨2, 3⟩, pointing "p" ⟨0, 1⟩]⟩) hcall
      (by decide +kernel)
  obtain ⟨-, -, hfailure⟩ :=
    lone_call_agrees (e := ⟨.standard, [pointing "p" ⟨2, 3⟩, failing, pointing "p" ⟨0, 1⟩]⟩) hcall
      (by decide +kernel)
  obtain ⟨_, _, _, -, -, -, hdefects⟩ := hfailure _ rfl
  exact ⟨hcall, hfindings _ rfl, _, hdefects⟩

end Engine

end CallLint
