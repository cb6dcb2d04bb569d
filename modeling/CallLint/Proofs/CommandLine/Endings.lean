import CallLint.Proofs.CommandLine.Loading
import CallLint.Proofs.CommandLine.Written

/-!
# How runs end

A run fails before it has looked at any unit, or only tells something, or breaks off, or it reports
what it has found. Only a run that reports can change files, and it does so if it is asked to.

* `Run.FailsEarly`, `Run.Tells`, `Run.BreaksOff`, `Run.Reports`: the four kinds of runs.
  `Run.exists_ending`: there are no others.
* `Run.due`: the new texts that a run that reports has to write.
* `Run.of_failsEarly`, `Run.of_tells`, `Run.of_breaksOff`, `Run.of_reports`: what each kind of run
  leaves.
-/

namespace CallLint.Run

variable {fs : FileSystem} {arguments : List String} {terminal : Bool} {a : Arguments} {e : Engine}
  {units : List SourceUnit} {b : BatchReport} {r : Run} {colored : Bool}

/-! ## Kinds of runs -/

/-- A run that fails before it has looked at any unit. -/
inductive FailsEarly (fs : FileSystem) (arguments : List String) : Prop
  | usage (h : Arguments.parse arguments = .error .usage)
  | config {a : Arguments} {f : RunFailure} (ha : Arguments.parse arguments = .ok a)
      (h : Input.config fs a = .error f)
  | unknownRule {a : Arguments} {c : Config} {id : String} (ha : Arguments.parse arguments = .ok a)
      (hc : Input.config fs a = .ok c) (hexplain : a.explain = some id)
      (h : builtinRule? c id = none)
  | unloadable {a : Arguments} {c : Config} (ha : Arguments.parse arguments = .ok a)
      (hc : Input.config fs a = .ok c) (hexplain : a.explain = none) (hlist : a.listRules = false)
      (h : Input.Unloadable fs a)

/-- A run that only tells something: its version, its usage, a rule, or all rules. -/
inductive Tells (fs : FileSystem) (arguments : List String) : Prop
  | version (h : Arguments.parse arguments = .error .version)
  | help (h : Arguments.parse arguments = .error .help)
  | rule {a : Arguments} {c : Config} {id : String} {rule : Rule}
      (ha : Arguments.parse arguments = .ok a) (hc : Input.config fs a = .ok c)
      (hexplain : a.explain = some id) (h : builtinRule? c id = some rule)
  | rules {a : Arguments} {c : Config} (ha : Arguments.parse arguments = .ok a)
      (hc : Input.config fs a = .ok c) (hexplain : a.explain = none) (hlist : a.listRules = true)

/-- A run that gets as far as checking its units. -/
structure Checks (fs : FileSystem) (arguments : List String) (a : Arguments) (e : Engine)
    (units : List SourceUnit) : Prop where
  parsed : Arguments.parse arguments = .ok a
  configured : ∃ c, Input.config fs a = .ok c ∧ e = .ofConfig c
  noExplain : a.explain = none
  noList : a.listRules = false
  loaded : Input.units fs a = .ok units

/-- A run that checks its units and has a report. -/
structure Reports (fs : FileSystem) (arguments : List String) (terminal : Bool) (a : Arguments)
    (e : Engine) (units : List SourceUnit) : Prop extends Checks fs arguments a e units where
  reported : ∃ text, report? e (isColored e.config a terminal) (e.checkUnits units) = some text

/-- A run that breaks off, because there is no report. -/
def BreaksOff (fs : FileSystem) (arguments : List String) (terminal : Bool) : Prop :=
  ∃ a e units, Checks fs arguments a e units ∧
    report? e (isColored e.config a terminal) (e.checkUnits units) = none

/-- Every run is of one of these kinds. -/
theorem exists_ending (fs : FileSystem) (arguments : List String) (terminal : Bool) :
    FailsEarly fs arguments ∨ Tells fs arguments ∨ BreaksOff fs arguments terminal ∨
      ∃ a e units, Reports fs arguments terminal a e units := by
  -- in the order in which a run looks at what it is given
  cases ha : Arguments.parse arguments with
  | error stop =>
    cases stop with
    | usage => exact .inl (.usage ha)
    | version => exact .inr (.inl (.version ha))
    | help => exact .inr (.inl (.help ha))
  | ok a =>
    cases hc : Input.config fs a with
    | error f => exact .inl (.config ha hc)
    | ok c =>
      cases hexplain : a.explain with
      | some id =>
        cases hrule : builtinRule? c id with
        | none => exact .inl (.unknownRule ha hc hexplain hrule)
        | some rule => exact .inr (.inl (.rule ha hc hexplain hrule))
      | none =>
        cases hlist : a.listRules with
        | true => exact .inr (.inl (.rules ha hc hexplain hlist))
        | false =>
          by_cases hunits : Input.Unloadable fs a
          · exact .inl (.unloadable ha hc hexplain hlist hunits)
          · rcases Input.exists_units hunits with ⟨units, hunits⟩
            have hchecks : Checks fs arguments a (.ofConfig c) units :=
              ⟨ha, ⟨c, hc, rfl⟩, hexplain, hlist, hunits⟩
            cases hreport : report? (.ofConfig c) (isColored c a terminal)
                ((Engine.ofConfig c).checkUnits units) with
            | none => exact .inr (.inr (.inl ⟨a, .ofConfig c, units, hchecks, hreport⟩))
            | some text => exact .inr (.inr (.inr ⟨a, .ofConfig c, units, hchecks, text, hreport⟩))

/-! ## Runs without a report -/

/-- Arguments that can be read are performed. -/
theorem ofArguments_of_parse (ha : Arguments.parse arguments = .ok a) :
    ofArguments fs arguments terminal = perform fs a terminal := by
  rw [ofArguments, ha]

/-- A run with a configuration goes on with the engine for it. -/
theorem perform_of_config {c : Config} (hc : Input.config fs a = .ok c) :
    perform fs a terminal =
      withEngine ⟨0, "", "", fs⟩ a (.ofConfig c) (isColored c a terminal) := by
  rw [perform, hc]

/-- A run that fails early leaves all files as they are. -/
theorem of_failsEarly (h : FailsEarly fs arguments) (terminal : Bool) :
    (ofArguments fs arguments terminal).code = failureCode ∧
      (ofArguments fs arguments terminal).files = fs := by
  cases h with
  | usage h => rw [ofArguments, h]; exact ⟨rfl, rfl⟩
  | config ha h => rw [ofArguments_of_parse ha, perform, h]; exact ⟨rfl, rfl⟩
  | @unknownRule a c id ha hc hexplain h =>
    have hrule : builtinRule? (Engine.ofConfig c).config id = none := h
    rw [ofArguments_of_parse ha, perform_of_config hc, withEngine, hexplain]
    dsimp only
    rw [hrule]
    exact ⟨rfl, rfl⟩
  | unloadable ha hc hexplain hlist h =>
    rw [ofArguments_of_parse ha, perform_of_config hc, withEngine, hexplain]
    dsimp only
    rw [hlist]
    split
    · next hfalse => cases hfalse
    · split
      · -- there would have been units
        next units hunits => exact absurd h (Input.not_unloadable hunits)
      · exact ⟨rfl, rfl⟩

/-- A run that only tells something leaves all files as they are. -/
theorem of_tells (h : Tells fs arguments) (terminal : Bool) :
    (ofArguments fs arguments terminal).code = 0 ∧
      (ofArguments fs arguments terminal).files = fs := by
  cases h with
  | version h => rw [ofArguments, h]; exact ⟨rfl, rfl⟩
  | help h => rw [ofArguments, h]; exact ⟨rfl, rfl⟩
  | @rule a c id rule ha hc hexplain h =>
    have hrule : builtinRule? (Engine.ofConfig c).config id = some rule := h
    rw [ofArguments_of_parse ha, perform_of_config hc, withEngine, hexplain]
    dsimp only
    rw [hrule]
    exact ⟨rfl, rfl⟩
  | rules ha hc hexplain hlist =>
    rw [ofArguments_of_parse ha, perform_of_config hc, withEngine, hexplain]
    dsimp only
    rw [if_pos hlist]
    exact ⟨rfl, rfl⟩

/-- A run that gets as far as its units checks them. -/
theorem ofArguments_of_checks (h : Checks fs arguments a e units) :
    ofArguments fs arguments terminal =
      (⟨0, "", "", fs⟩ : Run).check a e (isColored e.config a terminal) units := by
  rcases h.configured with ⟨c, hc, rfl⟩
  rw [ofArguments_of_parse h.parsed, perform_of_config hc, withEngine, h.noExplain]
  dsimp only
  rw [h.noList, if_neg Bool.false_ne_true, h.loaded]
  rfl

/-- A run that breaks off leaves all files as they are. -/
theorem of_breaksOff (h : BreaksOff fs arguments terminal) :
    (ofArguments fs arguments terminal).code = abortCode ∧
      (ofArguments fs arguments terminal).files = fs := by
  rcases h with ⟨a, e, units, hchecks, hnone⟩
  rw [ofArguments_of_checks hchecks, check, hnone]
  exact ⟨rfl, rfl⟩

/-! ## Runs with a report -/

/-- What becomes of the fixes of a run. -/
def outcome (a : Arguments) (units : List SourceUnit) (b : BatchReport) : FixOutcome :=
  (fixer a b.diagnostics).applyAll units

/-- The new texts that a run has to write. -/
def due (a : Arguments) (units : List SourceUnit) (b : BatchReport) : List (Path × String) :=
  if a.fix && writes a then (outcome a units b).outputs.toList else []

/-- Remarks leave all files as they are. -/
theorem files_foldl_warn {α : Type} (line : α → String) (l : List α) (r : Run) :
    (l.foldl (fun r x => r.warn (line x)) r).files = r.files := by
  induction l generalizing r with
  | nil => rfl
  | cons x l ih =>
    rw [List.foldl_cons, ih]
    rfl

theorem writes_iff : writes a = true ↔ a.write = true ∧ a.diff = false ∧ a.showFixes = false := by
  simp [writes, and_assoc]

/-- Fixes that are not to be written leave all files as they are. -/
theorem applyFixes_of_not_writes (h : writes a = false) (r : Run) (colored : Bool)
    (units : List SourceUnit) (findings : List Diagnostic) :
    ∃ r', r.applyFixes a colored units findings = .ok r' ∧ r'.files = r.files := by
  have hfinish (r' : Run) :
      ((remarks ((fixer a findings).applyAll units)).foldl warn r').files = r'.files :=
    files_foldl_warn id _ r'
  unfold applyFixes
  dsimp only
  rw [h]
  split
  · exact ⟨_, rfl, (hfinish _).trans (files_foldl_warn _ _ _)⟩
  · split
    · exact ⟨_, rfl, (hfinish _).trans (files_foldl_warn _ _ _)⟩
    · exact ⟨_, rfl, (hfinish _).trans (files_foldl_warn _ _ _)⟩

/-- Fixes that are to be written are written one after the other, and a failure at that ends the
run. -/
theorem applyFixes_of_writes (h : writes a = true) (r : Run) (colored : Bool)
    (units : List SourceUnit) (findings : List Diagnostic) :
    match writeAll r.files ((fixer a findings).applyAll units).outputs.toList with
    | (files, none) => ∃ r', r.applyFixes a colored units findings = .ok r' ∧ r'.files = files
    | (files, some _) =>
      ∃ r', r.applyFixes a colored units findings = .error r' ∧ r'.files = files ∧
        r'.code = failureCode := by
  rcases writes_iff.1 h with ⟨-, hdiff, hshow⟩
  unfold applyFixes
  dsimp only
  rw [h, hdiff, hshow, files_foldl_warn]
  obtain ⟨files, _ | failure⟩ :=
    writeAll r.files ((fixer a findings).applyAll units).outputs.toList
  · exact ⟨_, rfl, files_foldl_warn id _ _⟩
  · exact ⟨_, rfl, rfl, rfl⟩

/-- The new texts that are due are written, and nothing else is. -/
theorem conclude_eq (r : Run) (a : Arguments) (colored : Bool) (units : List SourceUnit)
    (b : BatchReport) :
    (r.conclude a colored units b).files = (writeAll r.files (due a units b)).1 ∧
      (r.conclude a colored units b).code =
        match (writeAll r.files (due a units b)).2 with
        | none => exitCode a b
        | some _ => failureCode := by
  unfold conclude due outcome
  cases hwrites : writes a with
  | false =>
    rcases applyFixes_of_not_writes hwrites r colored units b.diagnostics with ⟨r', happly, hfiles⟩
    rw [Bool.and_false, if_neg Bool.false_ne_true, writeAll, happly]
    -- nothing is due, whether the fixes are shown or not looked at
    split
    · exact ⟨hfiles, rfl⟩
    · exact ⟨rfl, rfl⟩
  | true =>
    rcases writes_iff.1 hwrites with ⟨-, hdiff, hshow⟩
    have happly := applyFixes_of_writes hwrites r colored units b.diagnostics
    rw [hdiff, hshow, Bool.or_false, Bool.or_false, Bool.and_true]
    cases hfix : a.fix with
    | false => exact ⟨rfl, rfl⟩
    | true =>
      rw [if_pos rfl, if_pos rfl]
      -- all texts are written, or one of them cannot be
      split at happly
      · next files hwritten =>
        rcases happly with ⟨r', hfixed, hfiles⟩
        rw [hwritten, hfixed]
        exact ⟨hfiles, rfl⟩
      · next files failure hwritten =>
        rcases happly with ⟨r', hfixed, hfiles, hcode⟩
        rw [hwritten, hfixed]
        exact ⟨hfiles, hcode⟩

/-- A run with a report writes what is due, up to the first text that cannot be written. -/
theorem of_reports (h : Reports fs arguments terminal a e units) :
    (ofArguments fs arguments terminal).files = (writeAll fs (due a units (e.checkUnits units))).1 ∧
      (ofArguments fs arguments terminal).code =
        match (writeAll fs (due a units (e.checkUnits units))).2 with
        | none => exitCode a (e.checkUnits units)
        | some _ => failureCode := by
  rcases h.reported with ⟨text, htext⟩
  rw [ofArguments_of_checks h.toChecks, check, htext]
  exact conclude_eq _ a _ units _

end CallLint.Run
