import CallLint.Proofs.NameGrammar
import CallLint.Proofs.Rounding.Narrowing

/-!
# Names that get into a source

The helper of the fix for a `long` comes from a configuration, so it may be any text. It gets into a
source only by way of the environment, which knows no helper whose name is not well formed, whatever
the resolver says. So an import line has a name of the grammar in it, and the call that is written
starts with a segment of the grammar.

* `Environment.resolves_iff`: what an environment knows.
* `RoundRule.CallsHelper`: a plan that imports and calls a helper of the grammar.
* `RoundRule.names_let_through`: the names that are accepted, and those that fixes are made with.
-/

namespace CallLint

/-- Only names of the grammar resolve, whatever the resolver knows. -/
theorem Environment.resolves_iff {env : Environment} {name : String} :
    env.resolves name = true ↔ QualifiedName.IsName name ∧ env.knows name = true := by
  rw [resolves, Bool.and_eq_true, QualifiedName.isWellFormed_iff_isName]

namespace RoundRule

/-- Whether a plan for a call imports a helper, and calls a method of it by the last segment of its
name: the name is one of the grammar, a line that is added imports it, and what stands in front of
the argument starts with the segment. -/
structure CallsHelper (s : FixSettings) (call : Expr) (text : String) (plan : FixPlan) : Prop where
  name : QualifiedName.IsName s.helper
  imports : plan.imports.toList = [s.helper]
  line : ∀ source offset block, importBlock? source plan.imports = some (offset, block) →
    block = (importSite source).opening ++ ("import " ++ s.helper ++ ";\n") ++
      (importSite source).closing
  edits : ∃ segment, (s.helper.toList.splitOn '.').getLast? = some segment ∧
    QualifiedName.IsSegment segment ∧
    plan.edits =
      [⟨.before, call.span, .ofList segment ++ "." ++ s.method ++ "("⟩,
        ⟨.instead, call.span, text⟩, ⟨.after, call.span, ")"⟩]

/-- The fix for a `long` is such a plan if the helper has a name of the grammar. -/
theorem callsHelper_narrowing {s : FixSettings} (h : QualifiedName.IsName s.helper) (call : Expr)
    (text : String) :
    CallsHelper s call text (narrowing s call text) where
  name := h
  imports := toList_imports_narrowing s call text
  line := by
    intro source offset block hblock
    rw [importBlock?_narrowing] at hblock
    split at hblock
    · cases hblock  -- a helper that is imported already gets no line
    · have htext : importText source [s.helper] = block :=
        congrArg Prod.snd (Option.some.inj hblock)
      have hline : String.join ([s.helper].map importLine) = "import " ++ s.helper ++ ";\n" :=
        String.empty_append
      rw [← htext, importText, hline]
  edits := by
    -- the call starts with what stands behind the last dot
    refine ⟨(QualifiedName.lastSegment s.helper).toList,
      QualifiedName.getLast?_splitOn_dot s.helper, h.lastSegment, ?_⟩
    rw [String.ofList_toList]
    exact edits_narrowing s call text

/-- A fix for a `long` is made for a helper that resolves. -/
theorem exists_narrowing_of_fix {s : FixSettings} {call argument : Expr} {env : Environment}
    {d : Diagnostic} {plan : FixPlan} (hrounds : Rounds .long call argument)
    (hfound : (rule s).check call env = .ok (some d)) (hfix : d.fix = some plan) :
    env.resolves s.helper = true ∧
      ∃ text, env.sourceFor? argument.span = some text ∧ plan = narrowing s call text := by
  rcases exists_rounds_of_check hfound with ⟨f, first, text, hfirst, htext, rfl⟩
  obtain ⟨rfl, rfl⟩ := hrounds.unique hfirst
  cases hresolves : env.resolves s.helper with
  | false =>
    -- there are words for a person, and no fix
    rw [said_long_of_not_resolves hresolves] at hfix
    cases hfix
  | true =>
    rw [said_long_of_resolves hresolves] at hfix
    exact ⟨rfl, text, htext, (Option.some.inj hfix).symm⟩

/-- The names that are accepted are those of the grammar: cut at every dot, they fall into segments,
and so they have visible ASCII characters only. No other text resolves, whatever the resolver knows.
So whatever the helper is set to, a fix for a `long` imports a name of the grammar, and calls the
helper by the last segment of that name. -/
theorem names_let_through :
    (∀ name, QualifiedName.isWellFormed name = true ↔ QualifiedName.IsName name) ∧
      (∀ name, QualifiedName.IsName name → ∀ c ∈ name.toList, 0x20 < c.toNat ∧ c.toNat < 0x7F) ∧
      (∀ (env : Environment) (name : String),
        env.resolves name = true ↔ QualifiedName.IsName name ∧ env.knows name = true) ∧
      ∀ (s : FixSettings) (call argument : Expr) (env : Environment) (d : Diagnostic)
          (plan : FixPlan),
        Rounds .long call argument → (rule s).check call env = .ok (some d) → d.fix = some plan →
          ∃ text, env.sourceFor? argument.span = some text ∧ CallsHelper s call text plan := by
  refine ⟨fun _ => QualifiedName.isWellFormed_iff_isName, fun _ => QualifiedName.IsName.visible,
    fun _ _ => Environment.resolves_iff, ?_⟩
  intro s call argument env d plan hrounds hfound hfix
  rcases exists_narrowing_of_fix hrounds hfound hfix with ⟨hresolves, text, htext, rfl⟩
  exact ⟨text, htext, callsHelper_narrowing (Environment.resolves_iff.1 hresolves).1 call text⟩

/-- A name with another line in it resolves nowhere, and the default helper is imported and
called. -/
theorem names_let_through_boxedLong :
    (Environment.mk "x = Math.round(n);" fun _ => true).resolves "a.B;\nimport c.D" = false ∧
      ∃ d plan,
        (rule default).check roundedLong ⟨"x = Math.round(n);", fun _ => true⟩ = .ok (some d) ∧
        d.fix = some plan ∧ CallsHelper default roundedLong "n" plan := by
  rcases names_let_through with ⟨haccepted, -, hresolves, hfixes⟩
  constructor
  · rw [← Bool.not_eq_true, hresolves]
    rintro ⟨hname, -⟩
    exact absurd ((haccepted _).2 hname) (by decide +kernel)
  · let env : Environment := ⟨"x = Math.round(n);", fun _ => true⟩
    have hrounds : Rounds .long roundedLong boxedLong :=
      ⟨rfl, rfl, rfl, .named "java.lang.Long", by decide, rfl⟩
    have htext : env.sourceFor? boxedLong.span = some "n" := by decide +kernel
    have hhelper : env.resolves (default : FixSettings).helper = true := by decide +kernel
    have hfound := check_of_resolves hrounds htext hhelper
    obtain ⟨text, htold, hcalls⟩ :=
      hfixes default roundedLong boxedLong env _ _ hrounds hfound rfl
    obtain rfl : text = "n" := Option.some.inj (htold.symm.trans htext)
    exact ⟨_, _, hfound, rfl, hcalls⟩

end RoundRule

end CallLint
