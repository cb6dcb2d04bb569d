import CallLint.Proofs.Rounding.Findings
import CallLint.Proofs.Text.Blank

/-!
# All that the rounding rule says

The rule looks at a call three times: with its screen, with a matcher for each family of arguments,
and at the first argument itself. The three looks agree, so the answer of the rule is a matter of
four questions: which method is called, which family the first argument belongs to, whether that
argument has a source text, and for a `long` whether the helper can be used.

* `Rounds`: a call of the method with an argument of a family.
* `accepts_matcher_iff`, `accepts_screen_iff`: what the matchers accept, said without them.
* `check_of_rounds`, `check_of_not_rounds`: the answer of the rule.
* `check_answers`: the answer, case by case; it is never a contradiction of the rule with itself.
-/

namespace CallLint.RoundRule

/-! ## Calls of the method -/

/-- The types of a family of arguments. -/
def Family.types : Family → List TypeRef
  | .int => [.primitive .int, .named "java.lang.Integer"]
  | .long => [.primitive .long, .named "java.lang.Long"]

/-- Whether a node is a call of the static method `round` of the class `java.lang.Math`, with a
first argument whose type belongs to a family. -/
structure Rounds (f : Family) (call argument : Expr) : Prop where
  isCall : call.kind = .methodCall
  target : call.target = some ⟨.named "java.lang.Math", "round", true⟩
  first : call.children.head? = some argument
  typed : ∃ t ∈ f.types, argument.type = some t

theorem Rounds.arguments {f : Family} {call argument : Expr} (h : Rounds f call argument) :
    call.arguments = call.children := if_pos h.isCall

/-- A call has one first argument, and that belongs to one family. -/
theorem Rounds.unique {f g : Family} {call a b : Expr} (ha : Rounds f call a)
    (hb : Rounds g call b) : f = g ∧ a = b := by
  have harg : a = b := Option.some.inj (ha.first.symm.trans hb.first)
  subst harg
  rcases ha.typed with ⟨t, ht, hta⟩
  rcases hb.typed with ⟨t', ht', hta'⟩
  obtain rfl : t = t' := Option.some.inj (hta.symm.trans hta')
  refine ⟨?_, rfl⟩
  -- no type is in both families
  cases f <;> cases g <;>
    simp only [Family.types, List.mem_cons, List.not_mem_nil, or_false] at ht ht' ⊢ <;>
    rcases ht with rfl | rfl <;> simp at ht'

/-! ## What the matchers accept -/

/-- The matcher for the calls with an argument of a family. -/
def Family.matcher (f : Family) : Matcher := .all [roundCall, .argumentTypeIn 0 f.types]

@[simp] theorem isNamed_math_iff {t : TypeRef} :
    t.isNamed "java.lang.Math" = true ↔ t = .named "java.lang.Math" := by
  cases t with
  | primitive p => cases p <;> decide
  -- the name has dots, so the last segment alone is not enough
  | named n => simp [TypeRef.isNamed]

/-- Which calls are calls of the method, whatever their arguments are. -/
theorem accepts_roundCall_iff {call : Expr} {env : Environment} :
    roundCall.accepts call env = true ↔
      call.kind = .methodCall ∧ call.target = some ⟨.named "java.lang.Math", "round", true⟩ := by
  have hleaf : roundCall.accepts call env =
      (Leaf.callTo "java.lang.Math" "round" true).answer call env := rfl
  rw [hleaf, Leaf.answer, Bool.and_eq_true, decide_eq_true_eq, Option.any_eq_true]
  refine and_congr_right fun _ => ?_
  constructor
  · rintro ⟨⟨owner, name, isStatic⟩, htarget, hanswer⟩
    simp only [Bool.and_eq_true, decide_eq_true_eq, isNamed_math_iff, Bool.not_true,
      Bool.false_or] at hanswer
    rcases hanswer with ⟨⟨rfl, rfl⟩, rfl⟩
    exact htarget
  · intro htarget
    exact ⟨_, htarget, by simp⟩

/-- The matcher of a family accepts the calls with an argument of that family. -/
theorem accepts_matcher_iff {f : Family} {call : Expr} {env : Environment} :
    f.matcher.accepts call env = true ↔ ∃ argument, Rounds f call argument := by
  rw [Family.matcher, accepts_iff_takes, accepts_roundCall_iff, takes]
  constructor
  · rintro ⟨⟨hcall, htarget⟩, argument, hfirst, t, ht, hmem⟩
    rw [Expr.arguments, if_pos hcall] at hfirst
    exact ⟨argument, hcall, htarget, hfirst, t, hmem, ht⟩
  · rintro ⟨argument, h⟩
    rcases h.typed with ⟨t, hmem, ht⟩
    exact ⟨⟨h.isCall, h.target⟩, argument, h.arguments ▸ h.first, t, ht, hmem⟩

/-- The screen lets through what one of the matchers accepts. -/
theorem accepts_screen_iff {call : Expr} {env : Environment} :
    screen.accepts call env = true ↔ ∃ f argument, Rounds f call argument := by
  have hsplit : screen.accepts call env = true ↔
      Family.int.matcher.accepts call env = true ∨ Family.long.matcher.accepts call env = true := by
    simp only [Matcher.accepts, Matcher.run_fst, screen, Family.matcher, Matcher.holds,
      Matcher.holdsAll, Matcher.holdsAny, Bool.and_true, Bool.or_false, Bool.and_eq_true,
      Bool.or_eq_true, and_or_left]
    rfl
  rw [hsplit, accepts_matcher_iff, accepts_matcher_iff]
  constructor
  · rintro (h | h)
    · exact ⟨.int, h⟩
    · exact ⟨.long, h⟩
  · rintro ⟨f, h⟩
    cases f with
    | int => exact .inl h
    | long => exact .inr h

/-- On a call that the rule applies to, exactly one of the two matchers hits. -/
theorem family_of_rounds {f : Family} {call argument : Expr} (h : Rounds f call argument)
    (env : Environment) :
    family (intCall.accepts call env) (longCall.accepts call env) call.span = .ok f := by
  -- a matcher hits if the family of the argument is its own
  have hhit : ∀ g : Family, g.matcher.accepts call env = true ↔ f = g := by
    intro g
    rw [accepts_matcher_iff]
    constructor
    · rintro ⟨b, hb⟩
      exact (h.unique hb).1
    · rintro rfl
      exact ⟨argument, h⟩
  have hint : intCall.accepts call env = decide (f = .int) := by
    rw [Bool.eq_iff_iff, decide_eq_true_eq]
    exact hhit .int
  have hlong : longCall.accepts call env = decide (f = .long) := by
    rw [Bool.eq_iff_iff, decide_eq_true_eq]
    exact hhit .long
  rw [hint, hlong]
  cases f <;> rfl

/-! ## The answer of the rule -/

/-- What is said about a call with an argument of a family. -/
def said (s : FixSettings) (f : Family) (call argument : Expr) (text : String) (env : Environment) :
    Diagnostic :=
  match f with
  | .int => (finding call.span).withFix (removal s call argument text)
  | .long => longFinding s call text env

/-- The rule has nothing to say about other nodes. -/
theorem check_of_not_rounds {call : Expr} (h : ¬ ∃ f argument, Rounds f call argument)
    (s : FixSettings) (env : Environment) : (rule s).check call env = .ok none := by
  rw [Rule.check_eq_none_iff, ← Bool.not_eq_true]
  exact fun hscreen => h (accepts_screen_iff.1 hscreen)

/-- About a call that it applies to, the rule says what belongs to the family of the argument, if it
can read that argument. -/
theorem check_of_rounds {f : Family} {call argument : Expr} (h : Rounds f call argument)
    (s : FixSettings) (env : Environment) :
    (rule s).check call env =
      match env.sourceFor? argument.span with
      | none => .error (.missingSource ruleId argument.span)
      | some text => .ok (some (said s f call argument text env)) := by
  have hscreen : screen.accepts call env = true := accepts_screen_iff.2 ⟨f, argument, h⟩
  rcases List.head?_eq_some_iff.1 h.first with ⟨rest, hchildren⟩
  have harguments : call.arguments = argument :: rest := h.arguments.trans hchildren
  have hcheck : (rule s).check call env = (examine s call env).map some := if_pos hscreen
  -- neither of the contradictions is there, so only the text of the argument may be missing
  rw [hcheck, examine, family_of_rounds h env, harguments]
  simp only [bind, Except.bind]
  cases env.sourceFor? argument.span with
  | none => rfl
  | some text => cases f <;> rfl

/-- A finding of the rule is about a call of the method. -/
theorem exists_rounds_of_check {s : FixSettings} {call : Expr} {env : Environment} {d : Diagnostic}
    (h : (rule s).check call env = .ok (some d)) :
    ∃ f argument text, Rounds f call argument ∧ env.sourceFor? argument.span = some text ∧
      d = said s f call argument text env := by
  have hrounds : ∃ f argument, Rounds f call argument :=
    accepts_screen_iff.1 (Rule.check_eq_some_iff.1 h).1
  rcases hrounds with ⟨f, argument, hrounds⟩
  rw [check_of_rounds hrounds] at h
  cases htext : env.sourceFor? argument.span with
  | none =>
    rw [htext] at h
    cases h
  | some text =>
    rw [htext] at h
    cases h
    exact ⟨f, argument, text, hrounds, htext, rfl⟩

/-! ## The findings -/

/-- For an `int` there is a safe fix without imports. -/
theorem said_int (s : FixSettings) (call argument : Expr) (text : String) (env : Environment) :
    ∃ plan, (said s .int call argument text env).fix = some plan ∧ plan.safety = .safe ∧
      plan.imports = ∅ ∧ (said s .int call argument text env).requiresReview = false := by
  refine ⟨removal s call argument text, rfl, ?_, ?_, rfl⟩
  · exact Rounding.isSafe_plan s ⟨call.span, argument.kind, text⟩
  · exact Rounding.imports_plan s ⟨call.span, argument.kind, text⟩

/-- What is said about a `long` if the helper can be used. -/
theorem said_long_of_resolves {s : FixSettings} {env : Environment}
    (h : env.resolves s.helper = true) (call argument : Expr) (text : String) :
    said s .long call argument text env = (finding call.span).withFix (narrowing s call text) :=
  if_pos h

/-- What is said about a `long` if the helper cannot be used. -/
theorem said_long_of_not_resolves {s : FixSettings} {env : Environment}
    (h : env.resolves s.helper = false) (call argument : Expr) (text : String) :
    said s .long call argument text env =
      ((Diagnostic.plain ruleId info.severity (lossMessage s) call.span).withHelp
        info.summary).forReview := by
  have hnot : ¬ env.resolves s.helper = true := by simp [h]
  exact if_neg hnot

theorem head?_toList_append {a : String} {c : Char} (h : a.toList.head? = some c) (b : String) :
    (a ++ b).toList.head? = some c := by
  rw [String.toList_append, List.head?_append, h, Option.some_or]

/-- The message about a lost `long` starts with a capital of its own, so it is neither blank nor the
summary, whatever the helper is called. -/
theorem lossMessage_speaks (s : FixSettings) :
    Text.trim (lossMessage s) ≠ "" ∧ lossMessage s ≠ info.summary := by
  have hlead : (lossMessage s).toList.head? = some 'C' := by
    unfold lossMessage
    -- the helper and its method stand behind the first words
    iterate 4 refine head?_toList_append ?_ _
    decide +kernel
  constructor
  · intro hblank
    have hall := Text.trim_eq_empty_iff.1 hblank 'C' (List.mem_of_head? hlead)
    exact absurd hall (by decide)
  · intro hsummary
    rw [hsummary] at hlead
    exact absurd hlead (by decide +kernel)

/-- For a `long` there is a risky fix that imports the helper exactly if that can be used, and words
for a person exactly if not. -/
theorem said_long (s : FixSettings) (call argument : Expr) (text : String) (env : Environment) :
    ((∃ plan, (said s .long call argument text env).fix = some plan ∧ plan.safety = .risky ∧
        plan.imports.toList = [s.helper] ∧
        (said s .long call argument text env).requiresReview = false) ↔
      env.resolves s.helper = true) ∧
    (((said s .long call argument text env).fix = none ∧
        (said s .long call argument text env).requiresReview = true ∧
        Text.trim (said s .long call argument text env).message ≠ "" ∧
        (said s .long call argument text env).message ≠ info.summary) ↔
      env.resolves s.helper = false) := by
  cases hresolves : env.resolves s.helper with
  | true =>
    rw [said_long_of_resolves hresolves]
    constructor
    · exact ⟨fun _ => rfl, fun _ => ⟨narrowing s call text, rfl, rfl, rfl, rfl⟩⟩
    · refine ⟨fun h => ?_, fun h => by cases h⟩
      cases h.1
  | false =>
    rw [said_long_of_not_resolves hresolves]
    constructor
    · refine ⟨fun ⟨plan, hplan, _⟩ => ?_, fun h => by cases h⟩
      cases hplan
    · exact ⟨fun _ => rfl, fun _ => ⟨rfl, rfl, lossMessage_speaks s⟩⟩

/-- Everything is said with the severity of the rule. -/
@[simp] theorem severity_said (s : FixSettings) (f : Family) (call argument : Expr) (text : String)
    (env : Environment) : (said s f call argument text env).severity = info.severity := by
  cases f with
  | int => rfl
  | long =>
    rw [said, longFinding]
    split <;> rfl

/-- A finding of the rule is never an error without a fix and without words, whatever its severity
is made. -/
theorem validate_said (s : FixSettings) (f : Family) (call argument : Expr) (text : String)
    (env : Environment) (severity : Severity) :
    ({ said s f call argument text env with severity } : Diagnostic).validate = .ok () := by
  -- a finding speaks by its fix, or else by its message
  have hspeaks :
      ({ said s f call argument text env with severity } : Diagnostic).isSilent = false := by
    cases f with
    | int => simp [Diagnostic.isSilent, said, Diagnostic.withFix]
    | long =>
      cases hresolves : env.resolves s.helper with
      | true => simp [said_long_of_resolves hresolves, Diagnostic.isSilent, Diagnostic.withFix]
      | false =>
        have hmessage : ¬ ∀ c ∈ (lossMessage s).toList, Text.isBlank c = true :=
          fun h => (lossMessage_speaks s).1 (Text.trim_eq_empty_iff.2 h)
        rw [said_long_of_not_resolves hresolves, Diagnostic.isSilent, Bool.and_eq_false_iff,
          ← Bool.not_eq_true, ← Bool.not_eq_true, List.all_eq_true]
        exact .inr hmessage
  exact if_neg (by simp [hspeaks])

/-- The answer of the rule, for all settings, nodes and environments. It has nothing to say unless
the node is a call of the method with an argument of one of the two families; then it needs the
source text of the argument, and has a safe fix for an `int`, a risky one with one import for a
`long` if the helper can be used, and words for a person if not. It never finds that its looks at a
call contradict each other, and no severity turns its findings into mute errors. -/
theorem check_answers (s : FixSettings) (call : Expr) (env : Environment) :
    ((rule s).check call env = .ok none ↔ ¬ ∃ f argument, Rounds f call argument) ∧
    (∀ f argument, Rounds f call argument →
      ((rule s).check call env = .error (.missingSource ruleId argument.span) ↔
        env.sourceFor? argument.span = none) ∧
      ∀ text, env.sourceFor? argument.span = some text →
        ∃ d, (rule s).check call env = .ok (some d) ∧
          (f = .int →
            ∃ plan, d.fix = some plan ∧ plan.safety = .safe ∧ plan.imports = ∅ ∧
              d.requiresReview = false) ∧
          (f = .long →
            ((∃ plan, d.fix = some plan ∧ plan.safety = .risky ∧ plan.imports.toList = [s.helper] ∧
                d.requiresReview = false) ↔ env.resolves s.helper = true) ∧
            ((d.fix = none ∧ d.requiresReview = true ∧ Text.trim d.message ≠ "" ∧
                d.message ≠ (rule s).info.summary) ↔ env.resolves s.helper = false))) ∧
    (∀ id span message, (rule s).check call env ≠ .error (.invariant id span message)) ∧
    ∀ d severity, (rule s).check call env = .ok (some d) →
      ({ d with severity } : Diagnostic).validate = .ok () := by
  refine ⟨⟨?_, fun h => check_of_not_rounds h s env⟩, ?_, ?_, ?_⟩
  · rintro hnone ⟨f, argument, hrounds⟩
    rw [check_of_rounds hrounds] at hnone
    cases htext : env.sourceFor? argument.span <;> simp [htext] at hnone
  · intro f argument hrounds
    constructor
    · rw [check_of_rounds hrounds]
      cases env.sourceFor? argument.span <;> simp
    · intro text htext
      refine ⟨said s f call argument text env, by rw [check_of_rounds hrounds, htext], ?_, ?_⟩
      · rintro rfl
        exact said_int s call argument text env
      · rintro rfl
        exact said_long s call argument text env
  · -- what is left of the errors of the rule is a missing text
    intro id span message hinvariant
    by_cases hrounds : ∃ f argument, Rounds f call argument
    · rcases hrounds with ⟨f, argument, hrounds⟩
      rw [check_of_rounds hrounds] at hinvariant
      cases htext : env.sourceFor? argument.span <;> simp [htext] at hinvariant
    · rw [check_of_not_rounds hrounds] at hinvariant
      cases hinvariant
  · intro d severity hfound
    rcases exists_rounds_of_check hfound with ⟨f, argument, text, -, -, rfl⟩
    exact validate_said s f call argument text env severity

/-- A variable of a boxed type. -/
def boxedLong : Expr := (Expr.leaf .identifier ⟨15, 16⟩).withType (.named "java.lang.Long")

/-- A call that rounds the variable. -/
def roundedLong : Expr := .call ⟨4, 17⟩ ⟨.named "java.lang.Math", "round", true⟩ [boxedLong]

/-- A boxed `long` gets words for a person where the helper is not known, and an import where it
is. -/
theorem check_answers_boxedLong :
    (∃ d, (rule default).check roundedLong ⟨"x = Math.round(n);", fun _ => false⟩ = .ok (some d) ∧
      d.fix = none ∧ d.requiresReview = true ∧
      ({ d with severity := .error } : Diagnostic).validate = .ok ()) ∧
    ∃ d plan,
      (rule default).check roundedLong ⟨"x = Math.round(n);", fun _ => true⟩ = .ok (some d) ∧
      d.fix = some plan ∧ plan.imports.toList = ["com.google.common.primitives.Ints"] := by
  have hrounds : Rounds .long roundedLong boxedLong :=
    ⟨rfl, rfl, rfl, .named "java.lang.Long", by decide, rfl⟩
  have htext : ∀ knows, (Environment.mk "x = Math.round(n);" knows).sourceFor? boxedLong.span =
      some "n" := by
    intro knows
    have hslice : (Text.slice? 15 16 "x = Math.round(n);".toList).map String.ofList = some "n" := by
      decide +kernel
    exact hslice
  constructor
  · obtain ⟨-, hanswers, -, hvalid⟩ :=
      check_answers default roundedLong ⟨"x = Math.round(n);", fun _ => false⟩
    rcases (hanswers .long boxedLong hrounds).2 "n" (htext _) with ⟨d, hd, -, hlong⟩
    obtain ⟨hfix, hreview, -, -⟩ := (hlong rfl).2.2 (by decide +kernel)
    exact ⟨d, hd, hfix, hreview, hvalid d .error hd⟩
  · obtain ⟨-, hanswers, -, -⟩ :=
      check_answers default roundedLong ⟨"x = Math.round(n);", fun _ => true⟩
    rcases (hanswers .long boxedLong hrounds).2 "n" (htext _) with ⟨d, hd, -, hlong⟩
    obtain ⟨plan, hplan, -, himports, -⟩ := (hlong rfl).1.2 (by decide +kernel)
    exact ⟨d, plan, hd, hplan, himports⟩

end CallLint.RoundRule
