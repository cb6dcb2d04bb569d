import CallLint.Proofs.CommandLine.Endings
import CallLint.Proofs.CommandLine.Naming
import CallLint.Proofs.Engine.Vetting

/-!
# Only what is asked for is written

A run changes files only if fixes are to be written and nothing else is asked for. What it writes
are the new texts that the fixes make, in their order. The exit code tells of defects first, and
does not depend on what became of the fixes.

* `Run.AskToWrite`: arguments that ask for fixes to be written.
* `Run.Defective`: whether a call of some unit has a defect.
* `Run.writes_what_is_asked`: what is written, and the exit code.
-/

namespace CallLint.Run

open Arguments (Given)

/-- Arguments that ask for fixes to be written, and for nothing that keeps them from being
written. -/
structure AskToWrite (arguments : List String) : Prop where
  fix : Given arguments (.switch .fix)
  write : Given arguments (.switch .write)
  noDiff : ¬ Given arguments (.switch .diff)
  noShow : ¬ Given arguments (.switch .showFixes)
  noList : ¬ Given arguments (.switch .listRules)
  noExplain : ¬ Given arguments (.setting .explain)

/-- A rule in use has a defect at a call of some unit. -/
def Defective (e : Engine) (units : List SourceUnit) : Prop :=
  ∃ u ∈ units, ∃ q ∈ e.asked u, ∃ cause, e.answer u q = .error cause

variable {fs : FileSystem} {arguments : List String} {terminal : Bool} {a : Arguments} {e : Engine}
  {units : List SourceUnit}

/-- What is asked for can be seen in the arguments as they have been read. -/
theorem askToWrite_iff (h : Arguments.parse arguments = .ok a) :
    AskToWrite arguments ↔ (a.fix && writes a) = true ∧ a.listRules = false ∧ a.explain = none := by
  have hfix : Given arguments (.switch .fix) ↔ a.fix = true := Arguments.given_iff h _ (by decide)
  have hwrite : Given arguments (.switch .write) ↔ a.write = true :=
    Arguments.given_iff h _ (by decide)
  have hdiff : Given arguments (.switch .diff) ↔ a.diff = true :=
    Arguments.given_iff h _ (by decide)
  have hshow : Given arguments (.switch .showFixes) ↔ a.showFixes = true :=
    Arguments.given_iff h _ (by decide)
  have hlist : Given arguments (.switch .listRules) ↔ a.listRules = true :=
    Arguments.given_iff h _ (by decide)
  have hexplain : Given arguments (.setting .explain) ↔ a.explain.isSome = true :=
    Arguments.given_iff h _ (by decide)
  rw [Bool.and_eq_true, writes_iff, ← Bool.not_eq_true a.diff, ← Bool.not_eq_true a.showFixes,
    ← Bool.not_eq_true a.listRules, ← Option.not_isSome_iff_eq_none, ← hfix, ← hwrite, ← hdiff,
    ← hshow, ← hlist, ← hexplain]
  constructor
  · intro h
    exact ⟨⟨h.fix, h.write, h.noDiff, h.noShow⟩, h.noList, h.noExplain⟩
  · rintro ⟨⟨hfix, hwrite, hdiff, hshow⟩, hlist, hexplain⟩
    exact ⟨hfix, hwrite, hdiff, hshow, hlist, hexplain⟩

/-- A report has defects if and only if there are some. -/
theorem hasDefects_iff : (e.checkUnits units).hasDefects = true ↔ Defective e units := by
  have hdefect : ∀ u q cause, e.defect? u q = some cause ↔ e.answer u q = .error cause := by
    intro u q cause
    rw [Engine.defect?]
    cases e.answer u q <;> simp [Outcome.defect?]
  rw [BatchReport.hasDefects, Bool.not_eq_true', List.isEmpty_eq_false_iff_exists_mem,
    Engine.defects_checkUnits]
  simp only [List.mem_flatMap, List.mem_map, Engine.defects_checkUnit, List.mem_filterMap, hdefect]
  constructor
  · rintro ⟨-, u, hu, cause, ⟨q, hq, hanswer⟩, -⟩
    exact ⟨u, hu, q, hq, cause, hanswer⟩
  · rintro ⟨u, hu, q, hq, cause, hanswer⟩
    exact ⟨_, u, hu, cause, ⟨q, hq, hanswer⟩, rfl⟩

/-- The exit code that defects and the arguments lead to. -/
structure ExitsWith (arguments : List String) (e : Engine) (units : List SourceUnit) (code : Nat) :
    Prop where
  defective : Defective e units → code = 3
  exitZero : ¬ Defective e units → Given arguments (.switch .exitZero) → code = 0
  otherwise : ¬ Defective e units → ¬ Given arguments (.switch .exitZero) →
    code = (e.checkUnits units).exitCode

/-- The exit code of a run is the one that defects and the arguments lead to. -/
theorem exitsWith_exitCode (h : Arguments.parse arguments = .ok a) :
    ExitsWith arguments e units (exitCode a (e.checkUnits units)) := by
  have hzero : Given arguments (.switch .exitZero) ↔ a.exitZero = true :=
    Arguments.given_iff h _ (by decide)
  rw [exitCode]
  constructor
  · intro hdefective
    -- `--exit-zero` does not hide defects
    rw [BatchReport.exitCode, hasDefects_iff.2 hdefective, if_neg (by simp), if_pos rfl]
  · intro hfine hgiven
    rw [← hasDefects_iff] at hfine
    rw [if_pos (by simp [hzero.1 hgiven, hfine])]
  · intro _ hgiven
    rw [hzero] at hgiven
    rw [if_neg (by simp [hgiven])]

/-- No report asks for an exit code above that for defects. -/
theorem exitCode_le (b : BatchReport) : b.exitCode ≤ 3 := by
  unfold BatchReport.exitCode
  split_ifs <;> decide

/-- In particular a run that has reported does not exit as if it had broken off. -/
theorem ExitsWith.code_le {code : Nat} (h : ExitsWith arguments e units code) : code ≤ 3 := by
  by_cases hdefective : Defective e units
  · rw [h.defective hdefective]
  · by_cases hgiven : Given arguments (.switch .exitZero)
    · rw [h.exitZero hdefective hgiven]
      exact Nat.zero_le 3
    · rw [h.otherwise hdefective hgiven]
      exact exitCode_le _

/-! ## All runs -/

/-- What a run with a report leaves: the first of the new texts have been written, all of them
unless one could not be written, if that was asked for. -/
theorem exists_wrote_of_reports (h : Reports fs arguments terminal a e units) :
    ∃ done rest failure, due a units (e.checkUnits units) = done ++ rest ∧
      Wrote fs done (ofArguments fs arguments terminal).files ∧
      LeftOut (ofArguments fs arguments terminal).files rest failure ∧
      (failure = none → ExitsWith arguments e units (ofArguments fs arguments terminal).code) ∧
      (failure ≠ none → (ofArguments fs arguments terminal).code = 2) := by
  rcases of_reports h with ⟨hfiles, hcode⟩
  obtain ⟨done, rest, hsplit, hwrote, hleft⟩ :=
    exists_wrote_writeAll fs (due a units (e.checkUnits units))
  rw [← hfiles] at hwrote hleft
  refine ⟨done, rest, _, hsplit, hwrote, hleft, fun hnone => ?_, fun hsome => ?_⟩
  · -- everything has been written: the report and the arguments decide
    rw [hcode, hnone]
    exact exitsWith_exitCode h.parsed
  · -- a failure to write decides alone
    rcases Option.ne_none_iff_exists'.1 hsome with ⟨f, hf⟩
    rw [hcode, hf]
    rfl

/-- New texts are due if they are asked for, and not otherwise. -/
theorem due_of_reports (h : Reports fs arguments terminal a e units) (b : BatchReport) :
    (AskToWrite arguments → due a units b = (outcome a units b).outputs.toList) ∧
      (¬ AskToWrite arguments → due a units b = []) := by
  rw [askToWrite_iff h.parsed]
  constructor
  · rintro ⟨hwrites, -, -⟩
    exact if_pos hwrites
  · intro hnot
    exact if_neg fun hwrites => hnot ⟨hwrites, h.noList, h.noExplain⟩

/-- A run leaves all files as they are unless its arguments ask for fixes to be written. If they do,
the new texts of the fixes are written in their order, up to the first one that cannot be written; a
place has the text of the last one that leads there, and all other places keep theirs. A run that
fails before it has looked at any unit writes nothing and exits with 2. A run that cannot write a
text exits with 2 as well, and what it has written before stays. Any other run that reports exits
with 3 if a call has a defect, and otherwise as its findings and its arguments want it, whatever
became of the fixes. -/
theorem writes_what_is_asked (fs : FileSystem) (arguments : List String) (terminal : Bool) :
    ((ofArguments fs arguments terminal).files ≠ fs → AskToWrite arguments) ∧
    (∀ a e units, Reports fs arguments terminal a e units →
      ∃ done rest failure,
        (AskToWrite arguments →
          (outcome a units (e.checkUnits units)).outputs.toList = done ++ rest) ∧
        (¬ AskToWrite arguments → done = [] ∧ rest = []) ∧
        Wrote fs done (ofArguments fs arguments terminal).files ∧
        LeftOut (ofArguments fs arguments terminal).files rest failure ∧
        (failure = none → ExitsWith arguments e units (ofArguments fs arguments terminal).code) ∧
        (failure ≠ none → (ofArguments fs arguments terminal).code = 2)) ∧
    (FailsEarly fs arguments →
      (ofArguments fs arguments terminal).code = 2 ∧
      (ofArguments fs arguments terminal).files = fs) ∧
    (FailsEarly fs arguments ∨
      Tells fs arguments ∧ (ofArguments fs arguments terminal).code = 0 ∧
        (ofArguments fs arguments terminal).files = fs ∨
      BreaksOff fs arguments terminal ∧ (ofArguments fs arguments terminal).files = fs ∨
      ∃ a e units, Reports fs arguments terminal a e units) := by
  refine ⟨fun hchanged => ?_, fun a e units h => ?_, fun h => of_failsEarly h terminal, ?_⟩
  · -- no ending changes a file without being asked
    by_contra hnot
    apply hchanged
    rcases exists_ending fs arguments terminal with h | h | h | ⟨a, e, units, h⟩
    · exact (of_failsEarly h terminal).2
    · exact (of_tells h terminal).2
    · exact (of_breaksOff h).2
    · rw [(of_reports h).1, (due_of_reports h _).2 hnot, writeAll]
  · obtain ⟨done, rest, failure, hsplit, hwrote, hleft, hexit, hfailure⟩ :=
      exists_wrote_of_reports h
    refine ⟨done, rest, failure, fun hask => ?_, fun hnot => ?_, hwrote, hleft, hexit, hfailure⟩
    · rw [← (due_of_reports h _).1 hask, hsplit]
    · -- nothing is due, so there is nothing to be divided
      rw [(due_of_reports h _).2 hnot] at hsplit
      exact List.append_eq_nil_iff.1 hsplit.symm
  · rcases exists_ending fs arguments terminal with h | h | h | h
    · exact .inl h
    · exact .inr (.inl ⟨h, of_tells h terminal⟩)
    · exact .inr (.inr (.inl ⟨h, (of_breaksOff h).2⟩))
    · exact .inr (.inr (.inr h))

/-! ## One unit -/

/-- The text of a file with one unit, which rounds a variable. -/
def roundingText (path source : String) (stop : Nat) (type : Primitive) : String :=
  "[\"" ++ path ++ "\",\"" ++ source ++ "\",[],[[\"method-call\",[0," ++ toString stop ++
    "],null," ++
    "[\"java.lang.Math\",\"round\",true],[[\"identifier\",[2,3],\"" ++ type.name ++ "\"]]]]]"

/-- One file with such a unit. -/
def oneUnit (path : String) (stop : Nat) (type : Primitive) : FileSystem where
  files := .ofList [(["w", "u.json"], roundingText path "f(i)" stop type)]
  workingDirectory := ["w"]
  home := none

/-- What asks for its fix to be written. -/
def oneArguments : List String := ["--fix", "--write", "u.json"]

/-- The new text is written where it is asked for, and nothing is written without fixes. -/
theorem writes_what_is_asked_oneUnit :
    AskToWrite oneArguments ∧
      (∃ a e units done, Reports (oneUnit "A.java" 4 .int) oneArguments false a e units ∧
        Wrote (oneUnit "A.java" 4 .int) done
          (ofArguments (oneUnit "A.java" 4 .int) oneArguments false).files) ∧
      (ofArguments (oneUnit "A.java" 4 .int) oneArguments false).files.textAt? ["w", "A.java"] =
        some "i" ∧
      (ofArguments (oneUnit "A.java" 4 .int) ["--write", "u.json"] false).files =
        oneUnit "A.java" 4 .int := by
  have htext :
      (ofArguments (oneUnit "A.java" 4 .int) oneArguments false).files.textAt? ["w", "A.java"] =
        some "i" := by
    decide +kernel
  have hchanged :
      (ofArguments (oneUnit "A.java" 4 .int) oneArguments false).files ≠
        oneUnit "A.java" 4 .int := by
    intro heq
    rw [heq] at htext
    exact absurd htext (by decide +kernel)
  obtain ⟨hask, hreports, -, hends⟩ :=
    writes_what_is_asked (oneUnit "A.java" 4 .int) oneArguments false
  obtain ⟨-, -, hfails, -⟩ :=
    writes_what_is_asked (oneUnit "A.java" 4 .int) ["--write", "u.json"] false
  refine ⟨hask hchanged, ?_, htext, (hfails (.usage (by decide +kernel))).2⟩
  -- only a run that reports can have changed the file
  rcases hends with h | ⟨-, -, hkept⟩ | ⟨-, hkept⟩ | ⟨a, e, units, h⟩
  · exact absurd (of_failsEarly h false).2 hchanged
  · exact absurd hkept hchanged
  · exact absurd hkept hchanged
  · rcases hreports a e units h with ⟨done, rest, failure, -, -, hwrote, -⟩
    exact ⟨a, e, units, done, h, hwrote⟩

/-- What a single argument for this file is read as. -/
def plainRequest : Arguments := { Arguments.none with patterns := ["u.json"] }

/-- What the arguments are read as. -/
def oneRequest : Arguments := { plainRequest with fix := true, write := true }

theorem parse_oneArguments : Arguments.parse oneArguments = .ok oneRequest := by decide

/-- The unit as it is read. -/
def rounding (path source : String) (stop : Nat) (type : Primitive) : SourceUnit :=
  ⟨⟨path⟩, source, ∅, [.call ⟨0, stop⟩ ⟨.named "java.lang.Math", "round", true⟩
    [(Expr.leaf .identifier ⟨2, 3⟩).withType (.primitive type)]]⟩

/-! ## Places with two paths, places out of reach, and findings too long to be drawn -/

/-- All new texts of a run that writes are there when it is over. -/
def WritesAll (fs : FileSystem) (arguments : List String) (terminal : Bool) : Prop :=
  ∀ a e units, Reports fs arguments terminal a e units →
    (ofArguments fs arguments terminal).files ≠ fs →
    ∀ entry ∈ (outcome a units (e.checkUnits units)).outputs.toList,
      ∃ place, fs.locate entry.1 = .ok place ∧
        (ofArguments fs arguments terminal).files.textAt? place = some entry.2

/-- A run that checks its units and can write all that is due exits as its findings and its
arguments want it. -/
def ExitsAsFound (fs : FileSystem) (arguments : List String) (terminal : Bool) : Prop :=
  ∀ a e units, Checks fs arguments a e units →
    (writeAll fs (due a units (e.checkUnits units))).2 = none →
    ExitsWith arguments e units (ofArguments fs arguments terminal).code

/-- Two paths to one place, and a path into a directory that is not there. -/
def crowd : List SourceUnit :=
  [rounding "./A.java" "f(i)" 4 .int, rounding "A.java" "f(j)" 4 .int,
    rounding "gone/B.java" "f(k)" 4 .int]

/-- Files with these units. -/
def crowded : FileSystem where
  files := .ofList [(["w", "1.json"], roundingText "./A.java" "f(i)" 4 .int),
    (["w", "2.json"], roundingText "A.java" "f(j)" 4 .int),
    (["w", "3.json"], roundingText "gone/B.java" "f(k)" 4 .int)]
  workingDirectory := ["w"]
  home := none

/-- What asks for the fixes of these units to be written. -/
def crowdArguments : List String := ["--fix", "--write", "1.json", "2.json", "3.json"]

/-- What these arguments are read as. -/
def crowdRequest : Arguments :=
  { Arguments.none with patterns := ["1.json", "2.json", "3.json"], fix := true, write := true }

/-- The three files are read in their order, and each holds one unit. -/
theorem units_crowded : Input.units crowded crowdRequest = .ok crowd := by
  have hparsed : crowdRequest.patterns.mapM Input.pattern =
      .ok [⟨false, [.name "1.json"], false⟩, ⟨false, [.name "2.json"], false⟩,
        ⟨false, [.name "3.json"], false⟩] := by
    decide +kernel
  have hfiles : FilePattern.files crowded
      [⟨false, [.name "1.json"], false⟩, ⟨false, [.name "2.json"], false⟩,
        ⟨false, [.name "3.json"], false⟩] = [⟨"1.json"⟩, ⟨"2.json"⟩, ⟨"3.json"⟩] := by
    have hfound :
        (([⟨false, [.name "1.json"], false⟩, ⟨false, [.name "2.json"], false⟩,
            ⟨false, [.name "3.json"], false⟩] : List FilePattern).flatMap
          (FilePattern.expand crowded)).filter crowded.isFile =
        [⟨"1.json"⟩, ⟨"2.json"⟩, ⟨"3.json"⟩] := by
      decide +kernel
    have hsecond : (⟨"1.json"⟩ : Path).same ⟨"2.json"⟩ = false := by decide +kernel
    have hthird : (⟨"2.json"⟩ : Path).same ⟨"3.json"⟩ = false := by decide +kernel
    -- the kernel does not evaluate a sort
    rw [FilePattern.files, hfound, List.mergeSort_of_pairwise (by decide +kernel)]
    simp [FilePattern.withoutRepeats, hsecond, hthird]
  have hfirst : Input.unitsOf crowded ⟨"1.json"⟩ = .ok [rounding "./A.java" "f(i)" 4 .int] := by
    decide +kernel
  have hsecond : Input.unitsOf crowded ⟨"2.json"⟩ = .ok [rounding "A.java" "f(j)" 4 .int] := by
    decide +kernel
  have hthird : Input.unitsOf crowded ⟨"3.json"⟩ = .ok [rounding "gone/B.java" "f(k)" 4 .int] := by
    decide +kernel
  refine Input.units_eq_ok_iff.2 ⟨by decide, _, crowd.map ([·]), hparsed, ?_, by decide, rfl⟩
  rw [hfiles]
  exact mapM_cons_eq_ok_iff.2 ⟨_, _, hfirst, mapM_cons_eq_ok_iff.2 ⟨_, _, hsecond,
    mapM_cons_eq_ok_iff.2 ⟨_, _, hthird, rfl, rfl⟩, rfl⟩, rfl⟩

/-- A run over these files reaches its report. -/
theorem reports_crowded :
    Reports crowded crowdArguments false crowdRequest (.ofConfig .standard) crowd where
  parsed := rfl
  configured := ⟨.standard, rfl, rfl⟩
  noExplain := rfl
  noList := rfl
  loaded := units_crowded
  reported := Option.isSome_iff_exists.1 (by decide +kernel)

/-- Each unit has a new text, two of them at one place. -/
theorem outputs_crowd :
    (outcome crowdRequest crowd ((Engine.ofConfig .standard).checkUnits crowd)).outputs.toList =
      [(⟨"./A.java"⟩, "i"), (⟨"A.java"⟩, "j"), (⟨"gone/B.java"⟩, "k")] := by decide +kernel

/-- What a run over these files leaves. -/
theorem files_crowded :
    (ofArguments crowded crowdArguments false).files =
      (writeAll crowded [(⟨"./A.java"⟩, "i"), (⟨"A.java"⟩, "j"), (⟨"gone/B.java"⟩, "k")]).1 := by
  rw [(of_reports reports_crowded).1, ← outputs_crowd]
  rfl

/-- The text of the first unit is overwritten by that of the second one. -/
theorem not_writesAll_crowded : ¬ WritesAll crowded crowdArguments false := by
  have htext :
      (ofArguments crowded crowdArguments false).files.textAt? ["w", "A.java"] = some "j" := by
    rw [files_crowded]
    rfl
  have hchanged : (ofArguments crowded crowdArguments false).files ≠ crowded := by
    intro heq
    rw [heq] at htext
    exact absurd htext (by decide)
  have hplace : crowded.locate ⟨"./A.java"⟩ = .ok ["w", "A.java"] := rfl
  have hdue : (⟨"./A.java"⟩, "i") ∈
      (outcome crowdRequest crowd ((Engine.ofConfig .standard).checkUnits crowd)).outputs.toList :=
    outputs_crowd ▸ List.mem_cons_self
  intro h
  -- the text of the first unit would have to be where that of the second one is
  obtain ⟨place, hplace', hfirst⟩ := h _ _ _ reports_crowded hchanged _ hdue
  cases hplace.symm.trans hplace'
  exact absurd (htext.symm.trans hfirst) (by decide)

/-- A configuration in which the findings of the rule are no errors. -/
def softened : Config :=
  { Config.standard with
    rules :=
      { (default : RuleSettings) with severity := .ofList [("math-round-int-long", .info)] } }

/-- A file with a unit whose finding is too long to be drawn, and a file with this configuration. -/
def overlong : FileSystem where
  files := .ofList [(["w", "u.json"], roundingText "A.java" "f(i)" (TextReport.maxRow + 1) .long),
    (["w", ".sitefixrc.json"],
      "\x7b\"rules\":\x7b\"severity\":\x7b\"math-round-int-long\":\"info\"\x7d\x7d\x7d")]
  workingDirectory := ["w"]
  home := none

/-- The run breaks off where it draws the finding, with a code that no report asks for. -/
theorem not_exitsAsFound_overlong : ¬ ExitsAsFound overlong ["u.json"] false := by
  have hparsed : Arguments.parse ["u.json"] = .ok plainRequest := by decide +kernel
  have hconfigured : Input.config overlong plainRequest = .ok softened := by decide +kernel
  have hloaded : Input.units overlong plainRequest =
      .ok [rounding "A.java" "f(i)" (TextReport.maxRow + 1) .long] := by
    decide +kernel
  have hchecks : Checks overlong ["u.json"] plainRequest (.ofConfig softened)
      [rounding "A.java" "f(i)" (TextReport.maxRow + 1) .long] :=
    ⟨hparsed, ⟨_, hconfigured, rfl⟩, rfl, rfl, hloaded⟩
  have hcode : (ofArguments overlong ["u.json"] false).code = 101 :=
    (of_breaksOff ⟨_, _, _, hchecks, by decide +kernel⟩).1
  intro h
  have hexit := h _ _ _ hchecks rfl
  rw [hcode] at hexit
  exact absurd hexit.code_le (by decide)

/-- The first of three new texts is overwritten by the second, and the last one is never written. A
run breaks off over a finding that is too long to be drawn. -/
theorem not_writesAll_and_not_exitsAsFound :
    ¬ WritesAll crowded crowdArguments false ∧
      (ofArguments crowded crowdArguments false).files.textAt? ["w", "gone", "B.java"] = none ∧
      ¬ ExitsAsFound overlong ["u.json"] false :=
  ⟨not_writesAll_crowded, by rw [files_crowded]; decide +kernel, not_exitsAsFound_overlong⟩

end CallLint.Run
