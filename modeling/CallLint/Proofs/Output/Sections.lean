import Mathlib.Data.Option.Basic
import CallLint.Output.Text
import CallLint.Proofs.Report.Timing
import CallLint.Proofs.Sorted.Grouping

/-!
# Sections of a report

A report lists its findings file by file. They are put into a map by file and listed from there, and
what comes of it is said here without a map: the findings are sorted by file, stably, and each run
of one file has its name above it. The defects follow in their order. No finding is dropped and none
is repeated, except that a report that cannot be written has none of them.

* `TextReport.LaysOut`: what a report looks like. `TextReport.laysOut_of_render?`: it does look like
  this.
* `TextReport.LaysOut.shows`: it shows every finding.
* `TextReport.CanShow`: what it takes to write a report. `TextReport.isSome_render?_iff`: nothing
  else is needed.
* `TextReport.shows_all_or_nothing`: all of it.
-/

namespace CallLint.TextReport

variable {t : TextReport} {b : BatchReport} {out : String}

/-- Whether the file of a finding comes before that of another one, or stands for the same place. -/
def filedBefore (a b : Diagnostic) : Bool := (compare a.location.file b.location.file).isLE

/-- Whether the files of two findings stand for the same place. -/
def filedTogether (a b : Diagnostic) : Bool := a.location.file.same b.location.file

/-- Findings of one file, under the name that the first of them has for it. -/
def renderRun (t : TextReport) : List Diagnostic → String
  | [] => ""
  | d :: ds => t.renderFile d.location.file (d :: ds)

/-- Whether a text is the report of a batch: the findings sorted by file, with a name above each run
of one file, then a line for each defect, and then the numbers and timings. -/
def LaysOut (t : TextReport) (b : BatchReport) (out : String) : Prop :=
  ∃ sorted timings, IsStableSort filedBefore b.diagnostics sorted ∧
    t.renderTimings? b = some timings ∧
    out = .join ((sorted.splitBy filedTogether).map t.renderRun)
      ++ .join (b.defects.map t.renderDefect)
      ++ (if t.showStatistics then t.renderStatistics b else "") ++ timings

/-- Whether a report is written, with all findings in it. -/
def ShowsAll (t : TextReport) (b : BatchReport) : Prop :=
  ∃ out, t.render? b = some out ∧ t.LaysOut b out ∧
    ∀ d ∈ b.diagnostics, (t.renderDiagnostic d).toList <:+: out.toList

/-- What it takes to write a report: room to draw each finding, and a mean time of each rule if
times are shown. -/
structure CanShow (t : TextReport) (b : BatchReport) : Prop where
  room : ∀ d ∈ b.diagnostics, t.hasRoomFor d = true
  means : t.showTimings = true →
    ∀ r ∈ b.timings.values, r.evaluations = 0 ∨ r.evaluations % RuleTiming.divisorLimit ≠ 0

/-! ## Layout -/

/-- Files stand for the same place where their paths compare as equal. -/
theorem filedTogether_eq :
    filedTogether = fun a b => compare a.location.file b.location.file == .eq := by
  funext a b
  rw [Bool.eq_iff_iff, filedTogether, Path.same, decide_eq_true_eq, beq_iff_eq, Path.compare_eq_iff]

/-- File by file, findings are sorted by file and otherwise stay in their order. -/
theorem isStableSort_byFile (ds : List Diagnostic) :
    IsStableSort filedBefore ds (byFile ds).members :=
  SortedMap.isStableSort_groups (fun d : Diagnostic => d.location.file) ds

/-- The findings of the files in a map are the runs of one file in the sorted list. -/
theorem map_renderFile_byFile (t : TextReport) (ds : List Diagnostic) :
    ((byFile ds).toList.map fun (file, found) => t.renderFile file found) =
      ((byFile ds).members.splitBy filedTogether).map t.renderRun := by
  have hgrouped : SortedMap.Grouped (·.location.file) (byFile ds) :=
    SortedMap.grouped_groups (fun d : Diagnostic => d.location.file) ds
  rw [filedTogether_eq, hgrouped.splitBy_members, SortedMap.values, List.map_map]
  apply List.map_congr_left
  intro e he
  rcases hgrouped.headed e he with ⟨first, others, hfound, hfile⟩
  rw [Function.comp_apply, hfound, renderRun, hfile, ← hfound]

/-- A report is written if there is room for each finding and its timings can be told. -/
theorem render?_eq_some_iff :
    t.render? b = some out ↔ (∀ d ∈ b.diagnostics, t.hasRoomFor d = true) ∧
      ∃ timings, t.renderTimings? b = some timings ∧
        out = .join ((byFile b.diagnostics).toList.map fun (file, ds) => t.renderFile file ds)
          ++ .join (b.defects.map t.renderDefect)
          ++ (if t.showStatistics then t.renderStatistics b else "") ++ timings := by
  rw [← List.all_eq_true, render?, Option.bind_eq_bind, Option.bind_eq_some_iff]
  constructor
  · rintro ⟨_, hroom, hrest⟩
    rcases Option.bind_eq_some_iff.1 hrest with ⟨timings, htimings, hout⟩
    exact ⟨(Option.guard_eq_some' _).1 hroom, timings, htimings, (Option.some.inj hout).symm⟩
  · rintro ⟨hroom, timings, htimings, rfl⟩
    exact ⟨(), (Option.guard_eq_some' _).2 hroom,
      Option.bind_eq_some_iff.2 ⟨timings, htimings, rfl⟩⟩

/-- A report that is written has this layout. -/
theorem laysOut_of_render? (h : t.render? b = some out) : t.LaysOut b out := by
  rcases render?_eq_some_iff.1 h with ⟨-, timings, htimings, hout⟩
  rw [map_renderFile_byFile] at hout
  exact ⟨_, timings, isStableSort_byFile b.diagnostics, htimings, hout⟩

/-! ## Findings -/

/-- Each of some texts is part of all of them together. -/
theorem toList_infix_join {s : String} {l : List String} (h : s ∈ l) :
    s.toList <:+: (String.join l).toList := by
  rw [String.toList_join, List.flatMap_def]
  exact List.infix_of_mem_flatten (List.mem_map_of_mem h)

/-- The findings of a file are all shown under its name. -/
theorem shows_renderRun {d : Diagnostic} {run : List Diagnostic} (h : d ∈ run) :
    (t.renderDiagnostic d).toList <:+: (t.renderRun run).toList := by
  cases run with
  | nil => cases h
  | cons first others =>
    -- the name of the file is in front, and each finding is a block behind it
    have hblock : (t.renderDiagnostic d ++ "\n").toList <:+:
        (String.join ((first :: others).map fun d => t.renderDiagnostic d ++ "\n")).toList :=
      toList_infix_join (List.mem_map_of_mem h)
    rw [String.toList_append] at hblock
    rw [renderRun, renderFile, String.toList_append, String.toList_append]
    exact ((List.prefix_append _ _).isInfix.trans hblock).trans (List.infix_append _ _ _)

/-- A report shows every finding, whether it has a fix or not. -/
theorem LaysOut.shows (h : t.LaysOut b out) {d : Diagnostic} (hd : d ∈ b.diagnostics) :
    (t.renderDiagnostic d).toList <:+: out.toList := by
  rcases h with ⟨sorted, timings, hsorted, -, rfl⟩
  -- every finding is in one of the runs, and every run is a part of the text
  have hmem : d ∈ (sorted.splitBy filedTogether).flatten := by
    rw [List.flatten_splitBy]
    exact hsorted.perm.mem_iff.2 hd
  rcases List.mem_flatten.1 hmem with ⟨run, hrun, hd⟩
  have hfiles :
      (t.renderRun run).toList <:+:
        (String.join ((sorted.splitBy filedTogether).map t.renderRun)).toList :=
    toList_infix_join (List.mem_map_of_mem hrun)
  rw [String.toList_append, String.toList_append, String.toList_append, List.append_assoc,
    List.append_assoc]
  exact ((shows_renderRun hd).trans hfiles).trans (List.prefix_append _ _).isInfix

/-! ## Reports that cannot be written -/

/-- Times that are shown need a mean of every rule. -/
theorem isSome_renderTimings?_iff :
    (t.renderTimings? b).isSome = true ↔
      (t.showTimings = true → ∀ r ∈ b.timings.values, r.average?.isSome = true) := by
  rw [← isSome_timingTable?_iff, renderTimings?]
  cases t.showTimings with
  | false => simp
  | true =>
    cases hempty : b.timings.isEmpty with
    | true => simp [timingTable?, hempty]
    | false => simp

/-- So does a report, besides room for each finding. -/
theorem isSome_render?_iff : (t.render? b).isSome = true ↔ t.CanShow b := by
  have hmeans : (∃ timings, t.renderTimings? b = some timings) ↔ (t.showTimings = true →
      ∀ r ∈ b.timings.values, r.evaluations = 0 ∨ r.evaluations % RuleTiming.divisorLimit ≠ 0) := by
    rw [← Option.isSome_iff_exists, isSome_renderTimings?_iff]
    simp only [RuleTiming.isSome_average?_iff]
  rw [Option.isSome_iff_exists]
  constructor
  · rintro ⟨out, hout⟩
    rcases render?_eq_some_iff.1 hout with ⟨hroom, timings, htimings, -⟩
    exact ⟨hroom, hmeans.1 ⟨timings, htimings⟩⟩
  · intro h
    rcases hmeans.2 h.means with ⟨timings, htimings⟩
    exact ⟨_, render?_eq_some_iff.2 ⟨h.room, timings, htimings, rfl⟩⟩

/-! ## Both -/

/-- A report that can be written has all findings in it, sorted by file and in their order within a
file, and all defects behind them. A report that cannot be written is none at all. -/
theorem shows_all_or_nothing (t : TextReport) (b : BatchReport) :
    (t.ShowsAll b ↔ t.CanShow b) ∧ (t.render? b = none ↔ ¬ t.CanShow b) := by
  rw [← isSome_render?_iff]
  constructor
  · constructor
    · rintro ⟨out, hout, -⟩
      rw [hout]
      rfl
    · intro h
      rcases Option.isSome_iff_exists.1 h with ⟨out, hout⟩
      exact ⟨out, hout, laysOut_of_render? hout, fun d => (laysOut_of_render? hout).shows⟩
  · rw [Bool.not_eq_true, Option.isSome_eq_false_iff, Option.isNone_iff_eq_none]

/-- A finding without a fix at the start of a file. -/
def found (file rule : String) : Diagnostic :=
  (Diagnostic.plain rule .warning "here" ⟨0, 1⟩).locate ⟨file⟩ "f();"

/-- Findings of two files, one of which is spelled in two ways. -/
def interleaved : BatchReport :=
  { BatchReport.empty with diagnostics := [found "b//x" "r", found "a" "s", found "b/x" "t"] }

/-- Without source lines and numbers: each file has one name, that of its first finding. -/
theorem shows_all_or_nothing_interleaved :
    (TextReport.mk false false true true false false).ShowsAll interleaved ∧
    (TextReport.mk false false true true false false).render? interleaved =
      some ("a\na:1:1: warning[s]: here\n\n\n" ++
        "b//x\nb//x:1:1: warning[r]: here\n\nb/x:1:1: warning[t]: here\n\n\n") :=
  ⟨(shows_all_or_nothing _ interleaved).1.2 ⟨by decide +kernel, fun h => absurd h (by decide)⟩,
    by decide +kernel⟩

/-- A finding, and a rule that has been asked so often that the low 32 bits of the number are all
zero. -/
def overAsked : BatchReport :=
  BatchReport.empty.addReport
    ⟨⟨"A.java"⟩, [found "A.java" "r"], [], 1, .ofList [("r", ⟨"r", 0, RuleTiming.divisorLimit, 1⟩)]⟩

/-- The finding is lost with the timings that cannot be shown. -/
theorem not_showsAll_overAsked :
    ¬ (TextReport.mk false true true true true true).ShowsAll overAsked := by
  rintro ⟨out, hout, -⟩
  have hmeans := (isSome_render?_iff.1 (Option.isSome_iff_exists.2 ⟨out, hout⟩)).means rfl
  rcases hmeans ⟨"r", 0, RuleTiming.divisorLimit, 1⟩ (by decide +kernel) with hzero | hmod
  · exact absurd hzero (by decide)
  · exact hmod (Nat.mod_self _)

end CallLint.TextReport
