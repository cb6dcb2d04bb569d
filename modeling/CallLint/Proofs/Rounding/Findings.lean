import CallLint.Proofs.Engine.Checking
import CallLint.Proofs.Engine.Evaluation
import CallLint.Proofs.Fixer.PerFile

/-!
# The findings of the rounding rule

What the rule says about a call comes down to three things if the call rounds an `int`: the span of
the call, and the kind and the source text of its argument. All other findings of the rule are about
a `long`, and none of them has a fix that is applied by default.

* `RoundRule.roundings`: the findings of a unit that are about an `int`.
* `RoundRule.examine_eq_ok`: what the rule says, and when.
* `RoundRule.queue_fixes`: the fixes that are applied by default are those of the roundings, in the
  order of their spans.
-/

namespace CallLint.RoundRule

/-- A reported call that rounds an `int`. -/
structure Rounding where
  span : Span
  /-- The kind of the argument. -/
  kind : NodeKind
  /-- The source text of the argument. -/
  text : String
deriving DecidableEq, Repr

/-- The rounding of an `int` that the answer to a question reports, if it does. -/
def rounding? (e : Engine) (u : SourceUnit) (q : Expr × Rule) : Option Rounding :=
  if intCall.accepts q.1 u.environment && (e.finding? u q).isSome then do
    let argument ← q.1.arguments.head?
    let text ← u.environment.sourceFor? argument.span
    return ⟨q.1.span, argument.kind, text⟩
  else none

/-- The roundings of an `int` that are reported about a unit, in the order in which its trees are
walked. -/
def roundings (e : Engine) (u : SourceUnit) : List Rounding := (e.asked u).filterMap (rounding? e u)

namespace Rounding

/-- Whether a rounding starts before another one, or ends no later if they start together. -/
def listedBefore (a b : Rounding) : Bool := (compare a.span b.span).isLE

/-- What takes the place of the call. -/
def replacement (s : FixSettings) (r : Rounding) : String := s.parens.wrap r.kind r.text

/-- The plan that removes the call. -/
def plan (s : FixSettings) (r : Rounding) : FixPlan :=
  removal s (.leaf .methodCall r.span) (.leaf r.kind r.span) r.text

/-- The fix of a rounding in a unit. -/
def fix (s : FixSettings) (u : SourceUnit) (r : Rounding) : Fix :=
  ⟨u.path, .ofSpan u.path u.source r.span, r.plan s, ruleId⟩

theorem ranking_listedBefore : Ranking listedBefore := Ranking.ofCmp (compareOn Rounding.span)

/-- All edits of a removal are about the span of the call. -/
theorem span_of_mem_plan {s : FixSettings} {r : Rounding} {x : Edit} (hx : x ∈ (r.plan s).edits) :
    x.span = r.span := by
  rw [plan, removal] at hx
  split at hx
  · simp only [FixPlan.insertAfter, FixPlan.replaceSpan, FixPlan.insertBefore, FixPlan.addEdit,
      FixPlan.empty, Expr.leaf, List.nil_append, List.cons_append, List.mem_cons, List.not_mem_nil,
      or_false] at hx
    rcases hx with rfl | rfl | rfl <;> rfl
  · simp only [FixPlan.replaceSpan, FixPlan.addEdit, FixPlan.empty, Expr.leaf, List.nil_append,
      List.mem_singleton] at hx
    rw [hx]

/-- A removal puts the text of the argument in place of the call. -/
theorem instead_mem_plan (s : FixSettings) (r : Rounding) :
    ⟨.instead, r.span, r.text⟩ ∈ (r.plan s).edits := by
  rw [plan, removal]
  split <;>
    simp [FixPlan.insertAfter, FixPlan.replaceSpan, FixPlan.insertBefore, FixPlan.addEdit,
      FixPlan.empty, Expr.leaf]

@[simp] theorem isSafe_plan (s : FixSettings) (r : Rounding) : (r.plan s).safety = .safe := by
  rw [plan, removal]
  split <;> rfl

@[simp] theorem imports_plan (s : FixSettings) (r : Rounding) : (r.plan s).imports = ∅ := by
  rw [plan, removal]
  split <;> rfl

end Rounding

/-! ## What the rule says -/

/-- Exactly one of the two matchers has to hit. -/
theorem family_eq_ok_iff {isInt isLong : Bool} {span : Span} {f : Family} :
    family isInt isLong span = .ok f ↔
      isInt = true ∧ isLong = false ∧ f = .int ∨ isInt = false ∧ isLong = true ∧ f = .long := by
  cases isInt <;> cases isLong <;> simp [family, eq_comm]

/-- What the rule says is about an `int` or about a `long`, and in both cases the source text of the
argument is known. -/
theorem examine_eq_ok {s : FixSettings} {call : Expr} {env : Environment} {d : Diagnostic}
    (h : examine s call env = .ok d) :
    ∃ argument text, call.arguments.head? = some argument ∧
      env.sourceFor? argument.span = some text ∧
      (intCall.accepts call env = true ∧
          d = (finding call.span).withFix (Rounding.plan s ⟨call.span, argument.kind, text⟩) ∨
        intCall.accepts call env = false ∧ d = longFinding s call text env) := by
  unfold examine at h
  -- each step that can fail has gone well
  cases hfamily : family (intCall.accepts call env) (longCall.accepts call env) call.span with
  | error cause =>
    rw [hfamily] at h
    cases h
  | ok f =>
    rw [hfamily] at h
    cases harguments : call.arguments with
    | nil =>
      rw [harguments] at h
      cases h
    | cons argument rest =>
      rw [harguments] at h
      simp only [bind, Except.bind] at h
      cases htext : env.sourceFor? argument.span with
      | none =>
        rw [htext] at h
        cases h
      | some text =>
        rw [htext] at h
        refine ⟨argument, text, rfl, htext, ?_⟩
        rcases family_eq_ok_iff.1 hfamily with ⟨hint, -, rfl⟩ | ⟨hint, -, rfl⟩
        · cases h
          exact .inl ⟨hint, rfl⟩
        · cases h
          exact .inr ⟨hint, rfl⟩

theorem span_longFinding (s : FixSettings) (call : Expr) (text : String) (env : Environment) :
    (longFinding s call text env).span = call.span ∧
      (longFinding s call text env).rule = ruleId := by
  unfold longFinding
  split <;> exact ⟨rfl, rfl⟩

/-- A finding of the rule is at the span of its call, and under the identifier of the rule. -/
theorem span_of_examine {s : FixSettings} {call : Expr} {env : Environment} {d : Diagnostic}
    (h : examine s call env = .ok d) : d.span = call.span ∧ d.rule = ruleId := by
  rcases examine_eq_ok h with ⟨argument, text, -, -, ⟨-, rfl⟩ | ⟨-, rfl⟩⟩
  · exact ⟨rfl, rfl⟩
  · exact span_longFinding s call text env

/-! ## What the engine reports -/

/-- Whether the rounding rule is the only one in use. -/
def alone (e : Engine) : Prop := ∀ r ∈ e.rules, r = rule e.config.fix

/-- The rounding rule is the only one there is. -/
theorem alone_ofConfig (c : Config) : alone (.ofConfig c) := by
  intro r hr
  have hbuiltin : r ∈ builtinRules c := (List.mem_filter.1 hr).1
  rwa [builtinRules, List.mem_singleton] at hbuiltin

variable {e : Engine} {u : SourceUnit}

/-- Only the rounding rule is asked, about calls of the unit. -/
theorem rule_of_mem_asked (halone : alone e) {q : Expr × Rule} (hq : q ∈ e.asked u) :
    q.2 = rule e.config.fix ∧ q.1 ∈ u.calls := by
  rcases List.mem_flatMap.1 hq with ⟨call, hcall, hq⟩
  rcases List.mem_map.1 hq with ⟨r, hr, rfl⟩
  exact ⟨halone r (List.mem_filter.1 hr).1, hcall⟩

/-- A finding is what the rule says about a call, with the severity that is configured and its
place. -/
theorem finding?_eq_some (halone : alone e) {q : Expr × Rule} (hq : q ∈ e.asked u) {d : Diagnostic}
    (h : e.finding? u q = some d) :
    ∃ said, examine e.config.fix q.1 u.environment = .ok said ∧
      d = (e.adjust q.2 said).locate u.path u.source ∧
      Engine.Sound u.source (e.adjust q.2 said) := by
  rcases q with ⟨call, r⟩
  rcases rule_of_mem_asked halone hq with ⟨rfl, -⟩
  rcases Engine.finding?_eq_some_iff.1 h with ⟨found, hanswer, rfl⟩
  rcases Engine.evaluate_eq_some_iff.1 hanswer with ⟨said, hcheck, rfl, hsound⟩
  exact ⟨said, (Rule.check_eq_some_iff.1 hcheck).2, rfl, hsound⟩

/-- The fix of a finding, if it is applied by default. -/
def applied? (d : Diagnostic) : Option Fix := (Fixer.contributed? d).filter Fixer.empty.admits

/-- What the rule says about a rounding of an `int` has a fix that is applied. -/
theorem applied?_removal (r : Rule) (rounding : Rounding) :
    applied? ((e.adjust r ((finding rounding.span).withFix (rounding.plan e.config.fix))).locate
      u.path u.source) = some (rounding.fix e.config.fix u) := by
  have hedits : (rounding.plan e.config.fix).isEmpty = false := by
    rw [FixPlan.isEmpty, Bool.and_eq_false_iff]
    exact .inl (List.isEmpty_eq_false_iff.2 (List.ne_nil_of_mem (rounding.instead_mem_plan _)))
  have hcontributed : Fixer.contributed? ((e.adjust r ((finding rounding.span).withFix
      (rounding.plan e.config.fix))).locate u.path u.source) =
      some (rounding.fix e.config.fix u) := by
    simp [Fixer.contributed?, Fixer.fixOf?, Diagnostic.locate, Engine.adjust, Diagnostic.withFix,
      finding, Diagnostic.plain, hedits, Rounding.fix, Location.ofSpan]
  have hadmits : Fixer.empty.admits (rounding.fix e.config.fix u) = true := by
    rw [Fixer.admits, Fix.safety, Rounding.fix, Rounding.isSafe_plan]
  rw [applied?, hcontributed, Option.filter_some, if_pos hadmits]

/-- What the rule says about a `long` has no fix that is applied. -/
theorem applied?_longFinding (r : Rule) (s : FixSettings) (call : Expr) (text : String) :
    applied? ((e.adjust r (longFinding s call text u.environment)).locate u.path u.source) =
      none := by
  rw [applied?, Option.filter_eq_none_iff]
  intro fix hfix
  unfold longFinding at hfix
  split at hfix
  · -- the helper can be used: there is a fix, but a risky one
    have hplan : some (narrowing s call text) = some fix.plan := (Fixer.eq_of_contributed? hfix).1
    have hsafety : fix.safety = .risky := by
      rw [Fix.safety, ← Option.some.inj hplan]
      rfl
    rw [Fixer.admits, hsafety]
    exact Bool.false_ne_true
  · -- a person has to look
    cases hfix

/-- The fixes that are applied by default are those of the roundings of an `int`. -/
theorem applied?_finding? (halone : alone e) {q : Expr × Rule} (hq : q ∈ e.asked u) :
    (e.finding? u q).bind applied? = (rounding? e u q).map (Rounding.fix e.config.fix u) := by
  cases hfinding : e.finding? u q with
  | none => simp [rounding?, hfinding]
  | some d =>
    rcases finding?_eq_some halone hq hfinding with ⟨said, hsaid, rfl, -⟩
    rcases examine_eq_ok hsaid with ⟨argument, text, hargument, htext, ⟨hint, rfl⟩ | ⟨hint, rfl⟩⟩
    · -- about an `int`
      have hrounding : rounding? e u q = some ⟨q.1.span, argument.kind, text⟩ := by
        simp [rounding?, hint, hfinding, hargument, htext]
      rw [hrounding]
      exact applied?_removal q.2 ⟨q.1.span, argument.kind, text⟩
    · -- about a `long`
      have hrounding : rounding? e u q = none := by simp [rounding?, hint]
      rw [hrounding]
      exact applied?_longFinding q.2 e.config.fix q.1 text

/-! ## Which calls are reported -/

/-- Whether the first argument of a call has one of some types. -/
def takes (types : List TypeRef) (call : Expr) : Prop :=
  ∃ argument, call.arguments.head? = some argument ∧ ∃ t, argument.type = some t ∧ t ∈ types

/-- A matcher for some types looks at the first argument of a call of the method. -/
theorem accepts_iff_takes {types : List TypeRef} {call : Expr} {env : Environment} :
    (Matcher.all [roundCall, .argumentTypeIn 0 types]).accepts call env = true ↔
      roundCall.accepts call env = true ∧ takes types call := by
  rw [Matcher.accepts, Matcher.run_fst, Matcher.accepts, Matcher.run_fst, takes,
    List.head?_eq_getElem?]
  simp [Matcher.holds, Matcher.holdsAll, Matcher.argumentTypeIn, Matcher.typeIn, Leaf.answer,
    Option.any_eq_true]

/-- The screen lets through what the matcher for an `int` accepts. -/
theorem accepts_screen {call : Expr} {env : Environment} (h : intCall.accepts call env = true) :
    screen.accepts call env = true := by
  rw [intCall, Matcher.accepts, Matcher.run_fst] at h
  rw [screen, Matcher.accepts, Matcher.run_fst]
  simp only [Matcher.holds, Matcher.holdsAll, Matcher.holdsAny, Bool.and_true, Bool.or_false,
    Bool.and_eq_true, Bool.or_eq_true] at h ⊢
  exact ⟨h.1, .inl h.2⟩

/-- No call rounds both an `int` and a `long`. -/
theorem accepts_longCall_eq_false {call : Expr} {env : Environment}
    (h : intCall.accepts call env = true) : longCall.accepts call env = false := by
  rw [← Bool.not_eq_true, longCall, accepts_iff_takes]
  rw [intCall, accepts_iff_takes] at h
  -- both answers are about the type of the same argument
  rcases h with ⟨-, argument, hargument, t, ht, hint⟩
  rintro ⟨-, argument', hargument', t', ht', hlong⟩
  rw [hargument, Option.some_inj] at hargument'
  rw [← hargument', ht, Option.some_inj] at ht'
  rw [← ht'] at hlong
  simp only [intTypes, longTypes, List.mem_cons, List.not_mem_nil, or_false] at hint hlong
  rcases hint with rfl | rfl <;> simp at hlong

/-- What the rule says about a call with an `int`. -/
theorem examine_of_int {s : FixSettings} {call argument : Expr} {env : Environment} {text : String}
    (hint : intCall.accepts call env = true) (hargument : call.arguments.head? = some argument)
    (htext : env.sourceFor? argument.span = some text) :
    examine s call env =
      .ok ((finding call.span).withFix (Rounding.plan s ⟨call.span, argument.kind, text⟩)) := by
  rcases List.head?_eq_some_iff.1 hargument with ⟨rest, harguments⟩
  rw [examine, hint, accepts_longCall_eq_false hint, harguments]
  simp only [family, bind, Except.bind, htext]
  rfl

/-- The engine has made sure that each removal can be applied by itself. -/
theorem valid_of_rounding? (halone : alone e) {q : Expr × Rule} (hq : q ∈ e.asked u) {r : Rounding}
    (hr : rounding? e u q = some r) : (r.plan e.config.fix).validate u.source = .ok () := by
  have hfix := applied?_finding? halone hq
  rw [hr] at hfix
  rcases Option.bind_eq_some_iff.1 hfix with ⟨d, hd, hfix⟩
  rcases finding?_eq_some halone hq hd with ⟨said, -, rfl, hsound⟩
  have hplan := (Fixer.eq_of_contributed? (Option.filter_eq_some_iff.1 hfix).1).1
  exact hsound.fixes _ hplan

/-- A call of the method with an `int` is reported exactly if its argument has a source text and its
removal can be applied. -/
theorem rounding?_eq_some_iff (halone : alone e) {q : Expr × Rule} (hq : q ∈ e.asked u)
    {r : Rounding} :
    rounding? e u q = some r ↔
      intCall.accepts q.1 u.environment = true ∧ (r.plan e.config.fix).validate u.source = .ok () ∧
        ∃ argument text, q.1.arguments.head? = some argument ∧
          u.environment.sourceFor? argument.span = some text ∧
          r = ⟨q.1.span, argument.kind, text⟩ := by
  constructor
  · -- what is reported has passed the engine
    intro hr
    have hvalid := valid_of_rounding? halone hq hr
    unfold rounding? at hr
    split at hr
    · next hfound =>
      rw [Bool.and_eq_true] at hfound
      rcases Option.bind_eq_some_iff.1 hr with ⟨argument, hargument, hr⟩
      rcases Option.bind_eq_some_iff.1 hr with ⟨text, htext, hr⟩
      exact ⟨hfound.1, hvalid, argument, text, hargument, htext, (Option.some.inj hr).symm⟩
    · cases hr
  · -- the rule answers, and the engine has nothing against the answer
    rintro ⟨hint, hvalid, argument, text, hargument, htext, rfl⟩
    have hrule := (rule_of_mem_asked halone hq).1
    have hcheck : q.2.check q.1 u.environment = .ok (some ((finding q.1.span).withFix
        (Rounding.plan e.config.fix ⟨q.1.span, argument.kind, text⟩))) := by
      rw [hrule, Rule.check_eq_some_iff]
      exact ⟨accepts_screen hint, examine_of_int hint hargument htext⟩
    have hsound : Engine.Sound u.source (e.adjust q.2 ((finding q.1.span).withFix
        (Rounding.plan e.config.fix ⟨q.1.span, argument.kind, text⟩))) := by
      constructor
      · simp [Diagnostic.isSilent, Engine.adjust, Diagnostic.withFix]
      · intro plan hplan
        rw [← Option.some.inj hplan]
        exact hvalid
    have hevaluate := Engine.evaluate_eq_some_iff.2 ⟨_, hcheck, rfl, hsound⟩
    simp [rounding?, hint, Engine.finding?, Engine.answer, hevaluate, Outcome.finding?, hargument,
      htext]

/-- Every finding about an `int` is among the roundings. -/
theorem isSome_rounding? (halone : alone e) {q : Expr × Rule} (hq : q ∈ e.asked u) :
    (rounding? e u q).isSome = (intCall.accepts q.1 u.environment && (e.finding? u q).isSome) := by
  unfold rounding?
  split
  · next hfound =>
    rw [hfound]
    rw [Bool.and_eq_true, Option.isSome_iff_exists] at hfound
    rcases hfound with ⟨-, d, hd⟩
    rcases finding?_eq_some halone hq hd with ⟨said, hsaid, -, -⟩
    rcases examine_eq_ok hsaid with ⟨argument, text, hargument, htext, -⟩
    simp [hargument, htext]
  · next hfound =>
    rw [Bool.not_eq_true] at hfound
    rw [hfound]
    rfl

/-! ## Sorting -/

/-- Questions are ranked by the spans of their calls. -/
def earlier (q q' : Expr × Rule) : Bool := (compare q.1.span q'.1.span).isLE

theorem ranking_earlier : Ranking earlier :=
  Ranking.ofCmp (compareOn fun q : Expr × Rule => q.1.span)

/-- Putting the findings in order is the same as asking the questions in order. -/
theorem diagnostics_eq (halone : alone e) :
    (e.checkUnit u).diagnostics = ((e.asked u).mergeSort earlier).filterMap (e.finding? u) := by
  rw [Engine.checkUnit, (Engine.accounts_walk e u).diagnostics]
  refine (ranking_earlier.filterMap_mergeSort Engine.ranking_listedBefore ?_).symm
  intro q hq q' hq' d d' hd hd'
  rcases finding?_eq_some halone hq hd with ⟨said, hsaid, rfl, -⟩
  rcases finding?_eq_some halone hq' hd' with ⟨said', hsaid', rfl, -⟩
  rcases span_of_examine hsaid with ⟨hspan, hrule⟩
  rcases span_of_examine hsaid' with ⟨hspan', hrule'⟩
  show (compare q.1.span q'.1.span).isLE =
    ((compare said.span said'.span).then (compare said.rule said'.rule)).isLE
  -- all findings come from one rule, so only their spans count
  have hself : compare ruleId ruleId = .eq := Std.ReflCmp.compare_self
  rw [hspan, hrule, hspan', hrule', hself]
  cases compare q.1.span q'.1.span <;> rfl

/-- A rounding has the span of its call. -/
theorem span_of_rounding? {q : Expr × Rule} {r : Rounding} (h : rounding? e u q = some r) :
    r.span = q.1.span := by
  unfold rounding? at h
  split at h
  · rcases Option.bind_eq_some_iff.1 h with ⟨argument, -, h⟩
    rcases Option.bind_eq_some_iff.1 h with ⟨text, -, h⟩
    cases h
    rfl
  · cases h

/-- Putting the roundings in order is the same as asking the questions in order. -/
theorem mergeSort_roundings (e : Engine) (u : SourceUnit) :
    (roundings e u).mergeSort Rounding.listedBefore =
      ((e.asked u).mergeSort earlier).filterMap (rounding? e u) := by
  refine (ranking_earlier.filterMap_mergeSort Rounding.ranking_listedBefore ?_).symm
  intro q _ q' _ r r' hr hr'
  rw [earlier, Rounding.listedBefore, span_of_rounding? hr, span_of_rounding? hr']

/-- The fixes that a unit contributes. -/
def fixes (e : Engine) (u : SourceUnit) : List Fix :=
  (e.checkUnit u).diagnostics.filterMap Fixer.contributed?

/-- The first edit of a removal starts where the call starts. -/
@[simp] theorem firstStart?_fix (s : FixSettings) (u : SourceUnit) (r : Rounding) :
    Fixer.firstStart? (r.fix s u) = some r.span.start := by
  rw [Fixer.firstStart?, Rounding.fix, Rounding.plan, removal]
  split <;>
    simp [FixPlan.insertAfter, FixPlan.replaceSpan, FixPlan.insertBefore, FixPlan.addEdit,
      FixPlan.empty, Expr.leaf, List.min?]

/-- The fixes of a unit that are applied by default, in the order in which they are taken. -/
theorem queue_fixes (halone : alone e) :
    Fixer.empty.queue (fixes e u) =
      ((roundings e u).mergeSort Rounding.listedBefore).map (Rounding.fix e.config.fix u) := by
  have hadmitted : (fixes e u).filter Fixer.empty.admits =
      ((roundings e u).mergeSort Rounding.listedBefore).map (Rounding.fix e.config.fix u) := by
    rw [fixes, List.filter_filterMap, diagnostics_eq halone, List.filterMap_filterMap,
      mergeSort_roundings, List.map_filterMap]
    apply List.filterMap_congr
    intro q hq
    exact applied?_finding? halone (List.mem_mergeSort.1 hq)
  -- they are in order already: every edit of a removal starts where the call starts
  rw [Fixer.queue, hadmitted]
  apply List.mergeSort_of_pairwise
  rw [List.pairwise_map]
  refine (Rounding.ranking_listedBefore.pairwise_mergeSort (roundings e u)).imp fun {r r'} hle => ?_
  have hstart : r.span.start ≤ r'.span.start := by
    have hspan := Span.isLE_compare_iff.1 hle
    omega
  rw [Fixer.startsBefore, firstStart?_fix, firstStart?_fix]
  exact decide_eq_true hstart

/-- The fixes of a unit are for its path. -/
theorem file_of_mem_fixes (halone : alone e) {fix : Fix} (hfix : fix ∈ fixes e u) :
    fix.file = u.path := by
  rcases List.mem_filterMap.1 hfix with ⟨d, hd, hfix⟩
  rw [diagnostics_eq halone] at hd
  rcases List.mem_filterMap.1 hd with ⟨q, hq, hd⟩
  rcases finding?_eq_some halone (List.mem_mergeSort.1 hq) hd with ⟨said, -, rfl, -⟩
  exact (Fixer.eq_of_contributed? hfix).2

end CallLint.RoundRule
