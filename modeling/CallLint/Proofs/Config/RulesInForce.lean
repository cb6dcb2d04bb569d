import CallLint.Proofs.Config.Prevailing

/-!
# Which rules are in force

What a chain of configurations, and the settings that are given when a run is started, say about one
rule. Each of the three questions about a rule has its own way to add up the answers: a rule that is
disabled once stays so, the lists of enabled rules replace one another, the last severity wins, and
a rule is ignored for a path if it is ignored anywhere.

* `mem_disabled_foldl_merge`, `enabled_foldl_merge`: the two lists of rules.
* `severityOf?_merge`, `severityOf?_foldl_merge`: the severities.
* `ignoredFor_merge`, `ignores_foldl_merge`: the rules that are ignored for a path.
* `rules_in_force`: all of it for a whole chain.
-/

namespace CallLint.Config

variable {rule : String} {path : Path}

/-! ## Lists of rules -/

/-- A rule that is disabled once stays so. -/
theorem mem_disabled_foldl_merge {l : List Config} {c : Config} :
    rule ∈ (l.foldl merge c).rules.disabled ↔
      rule ∈ c.rules.disabled ∨ ∃ d ∈ l, rule ∈ d.rules.disabled :=
  foldl_merge_iff (rule ∈ ·.rules.disabled) fun _ _ => List.mem_append

/-- The last list of enabled rules that has a member replaces the others. -/
theorem enabled_foldl_merge (l : List Config) :
    (l.foldl merge standard).rules.enabled = lastUnusual [] (l.map (·.rules.enabled)) :=
  foldl_merge_eq_lastUnusual (·.rules.enabled) (fun _ _ => rfl) l

/-- The list of enabled rules that counts, if there is one: the one that is given when the run is
started, or else the last one in the chain that has a member. -/
def chosen? (chain : List Config) (o : Overrides) : Option (List String) :=
  o.enabled.or ((chain.map (·.rules.enabled)).filter (· ≠ [])).getLast?

/-- A list that is given when the run is started replaces those of the chain. -/
theorem enabled_override (chain : List Config) (o : Overrides) :
    ((chain.foldl merge standard).override o).rules.enabled = (chosen? chain o).getD [] := by
  have henabled : ((chain.foldl merge standard).override o).rules.enabled =
      o.enabled.getD (chain.foldl merge standard).rules.enabled := rfl
  rw [henabled, enabled_foldl_merge, lastUnusual, chosen?]
  cases o.enabled with
  | none => rfl
  | some l => rfl

/-- Rules that are disabled when the run is started are disabled besides those of the chain. -/
@[simp] theorem mem_disabled_override {c : Config} {o : Overrides} :
    rule ∈ (c.override o).rules.disabled ↔
      rule ∈ c.rules.disabled ∨ ∃ l ∈ o.disabled, rule ∈ l := by
  have hdisabled : (c.override o).rules.disabled = c.rules.disabled ++ o.disabled.getD [] := rfl
  rw [hdisabled, List.mem_append]
  cases o.disabled with
  | none => simp
  | some l => simp

/-- A rule is used if it is not disabled, and if it is among the enabled ones, should there be
any. -/
theorem isEnabled_iff {c : Config} :
    c.isEnabled rule = true ↔
      rule ∉ c.rules.disabled ∧ (c.rules.enabled = [] ∨ rule ∈ c.rules.enabled) := by
  rw [isEnabled, Bool.and_eq_true, Bool.or_eq_true, Bool.not_eq_true', List.isEmpty_iff,
    List.contains_iff_mem, ← Bool.not_eq_true, List.contains_iff_mem]

/-! ## Severities -/

/-- The configuration on top decides on a severity, unless it has none. -/
@[simp] theorem severityOf?_merge (c d : Config) (rule : String) :
    (c.merge d).severityOf? rule = (d.severityOf? rule).or (c.severityOf? rule) := by
  have hget := c.rules.severity.get?_mergeWith (fun _ new => new) d.rules.severity rule
  rw [Option.map_id'] at hget
  exact hget

/-- The last configuration that has a severity for a rule decides. -/
theorem severityOf?_foldl_merge (l : List Config) (rule : String) :
    (l.foldl merge standard).severityOf? rule = (l.filterMap (·.severityOf? rule)).getLast? := by
  -- the last configuration is merged last, so the induction is on the end of the list
  induction l using List.reverseRecOn with
  | nil => rfl
  | append_singleton l c ih =>
    rw [List.foldl_append, List.foldl_cons, List.foldl_nil, severityOf?_merge, ih,
      List.filterMap_append]
    cases hseverity : c.severityOf? rule with
    | none => simp [hseverity]
    | some severity => simp [hseverity]

/-! ## Ignored rules -/

/-- The rules that are not used for the paths that fit a pattern. -/
def ignoredFor (c : Config) (pattern : String) : List String :=
  (c.rules.perFile.get? pattern).getD []

/-- For one pattern, the lists of ignored rules add up. -/
@[simp] theorem ignoredFor_merge (c d : Config) (pattern : String) :
    (c.merge d).ignoredFor pattern = c.ignoredFor pattern ++ d.ignoredFor pattern := by
  have hget :=
    c.rules.perFile.get?_mergeWith (fun old new => old.getD [] ++ new) d.rules.perFile pattern
  have hmerge : (c.merge d).ignoredFor pattern =
      ((c.rules.perFile.mergeWith (fun old new => old.getD [] ++ new) d.rules.perFile).get?
        pattern).getD [] := rfl
  rw [hmerge, hget, ignoredFor, ignoredFor]
  cases d.rules.perFile.get? pattern with
  | none => simp
  | some rules => simp

/-- Whether a rule is in a list of ignored rules, by its name or with all others. -/
def NamedIn (rule : String) (rules : List String) : Prop := rule ∈ rules ∨ "all" ∈ rules

@[simp] theorem namedIn_append_iff {a b : List String} :
    NamedIn rule (a ++ b) ↔ NamedIn rule a ∨ NamedIn rule b := by
  unfold NamedIn
  rw [List.mem_append, List.mem_append]
  tauto

/-- A rule is ignored for a path if there is an entry for a pattern that fits the path. -/
theorem ignores_iff {c : Config} :
    c.ignores rule path = true ↔
      ∃ pattern rules, c.rules.perFile.get? pattern = some rules ∧ patternFits pattern path = true ∧
        NamedIn rule rules := by
  simp only [ignores, List.any_eq_true, Bool.and_eq_true, Bool.or_eq_true, List.contains_iff_mem,
    ← SortedMap.mem_toList_iff]
  constructor
  · rintro ⟨⟨pattern, rules⟩, hentry, hfits, hnamed⟩
    exact ⟨pattern, rules, hentry, hfits, hnamed.symm⟩
  · rintro ⟨pattern, rules, hentry, hfits, hnamed⟩
    exact ⟨(pattern, rules), hentry, hfits, hnamed.symm⟩

/-- Where there is no entry, no rule is named. -/
theorem ignores_iff_ignoredFor {c : Config} :
    c.ignores rule path = true ↔
      ∃ pattern, patternFits pattern path = true ∧ NamedIn rule (c.ignoredFor pattern) := by
  rw [ignores_iff]
  refine exists_congr fun pattern => ?_
  unfold ignoredFor
  cases c.rules.perFile.get? pattern with
  | none => simp [NamedIn]
  | some rules => simp

/-- Merging neither loses an ignored rule nor adds one. -/
theorem ignores_merge_iff {c d : Config} :
    (c.merge d).ignores rule path = true ↔
      c.ignores rule path = true ∨ d.ignores rule path = true := by
  simp only [ignores_iff_ignoredFor, ignoredFor_merge, namedIn_append_iff, and_or_left, exists_or]

/-- So does merging any number of configurations. -/
theorem ignores_foldl_merge {l : List Config} {c : Config} :
    (l.foldl merge c).ignores rule path = true ↔
      c.ignores rule path = true ∨ ∃ d ∈ l, d.ignores rule path = true :=
  foldl_merge_iff (·.ignores rule path = true) fun _ _ => ignores_merge_iff

/-! ## Chains -/

section Chain

variable {chain : List Config} {o : Overrides}

/-- The first question: a rule is disabled by nobody. -/
theorem not_mem_disabled_override_iff :
    rule ∉ ((chain.foldl merge standard).override o).rules.disabled ↔
      (∀ d ∈ chain, rule ∉ d.rules.disabled) ∧ ∀ l ∈ o.disabled, rule ∉ l := by
  have hstandard : rule ∉ standard.rules.disabled := List.not_mem_nil
  rw [mem_disabled_override, mem_disabled_foldl_merge, not_or, not_or]
  simp only [hstandard, not_false_eq_true, true_and, not_exists, not_and]

/-- The second one: a rule is among the enabled ones, if there are such. -/
theorem enabled_override_iff :
    (((chain.foldl merge standard).override o).rules.enabled = [] ∨
        rule ∈ ((chain.foldl merge standard).override o).rules.enabled) ↔
      ∀ l ∈ chosen? chain o, l = [] ∨ rule ∈ l := by
  rw [enabled_override]
  cases chosen? chain o with
  | none => simp
  | some l => simp

/-- The third one: a rule is ignored for a path. What is given when the run is started has no say in
this. -/
theorem ignores_override_iff :
    ((chain.foldl merge standard).override o).ignores rule path = true ↔
      ∃ d ∈ chain, d.ignores rule path = true := by
  have hoverride : ((chain.foldl merge standard).override o).ignores rule path =
      (chain.foldl merge standard).ignores rule path := rfl
  have hstandard : ¬ standard.ignores rule path = true := Bool.false_ne_true
  rw [hoverride, ignores_foldl_merge]
  exact or_iff_right hstandard

end Chain

/-- What a chain of configurations, each one merged on top of those before it, and the settings that
are given when the run is started say about a rule. It is used if neither disables it, and if the
list of enabled rules that counts is empty or has it, should there be one. Its severity is that of
the last configuration that has one. It is ignored for a path if some configuration has a pattern
that fits the path, with the rule or all rules. -/
theorem rules_in_force (chain : List Config) (o : Overrides) (rule : String) (path : Path) :
    (((chain.foldl merge standard).override o).isEnabled rule = true ↔
      (∀ d ∈ chain, rule ∉ d.rules.disabled) ∧ (∀ l ∈ o.disabled, rule ∉ l) ∧
        ∀ l ∈ chosen? chain o, l = [] ∨ rule ∈ l) ∧
      ((chain.foldl merge standard).override o).severityOf? rule =
        (chain.filterMap (·.rules.severity.get? rule)).getLast? ∧
      (((chain.foldl merge standard).override o).ignores rule path = true ↔
        ∃ d ∈ chain, ∃ pattern rules, d.rules.perFile.get? pattern = some rules ∧
          patternFits pattern path = true ∧ (rule ∈ rules ∨ "all" ∈ rules)) := by
  refine ⟨?_, severityOf?_foldl_merge chain rule, ?_⟩
  · rw [isEnabled_iff, not_mem_disabled_override_iff, enabled_override_iff, and_assoc]
  · rw [ignores_override_iff]
    simp only [ignores_iff]
    rfl

end CallLint.Config
