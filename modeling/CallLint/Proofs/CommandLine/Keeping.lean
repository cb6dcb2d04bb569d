import CallLint.Proofs.CommandLine.Asking
import CallLint.Proofs.Fixer.Origins

/-!
# Files that no unit names

A run writes only to the places of its units. A unit with a path names its place. The place of a
unit without a path is that of its unit file, so that its fixes end up in this file.

* `Input.Named`: a unit names a place.
* `Run.exists_unit_of_due`: which units a run writes to.
* `Run.unnamed_kept`: which files are kept.
-/

namespace CallLint

/-- A unit of a run names a place with its path. -/
def Input.Named (fs : FileSystem) (a : Arguments) (place : Address) : Prop :=
  ∃ file u, IsUnitFile fs a file ∧ Holds fs file u ∧ u.path.isEmpty = false ∧
    fs.locate (placedPath fs file u.path) = .ok place

namespace Run

open Input (IsUnitFile Holds Named)

variable {fs : FileSystem} {arguments : List String} {terminal : Bool} {a : Arguments} {e : Engine}
  {units : List SourceUnit} {place : Address}

/-- Fixes are to be written, and one was reported for a unit without a path in a unit file at a
place. -/
def Spills (fs : FileSystem) (arguments : List String) (terminal : Bool) (place : Address) : Prop :=
  AskToWrite arguments ∧ ∃ a e units, Reports fs arguments terminal a e units ∧
    ∃ file u v fix, IsUnitFile fs a file ∧ Holds fs file u ∧ u.path.isEmpty = true ∧
      fs.locate file = .ok place ∧ Input.placeUnit fs file u = .ok v ∧ Fixer.ReportedFor e v fix

/-- New texts are due for units that a fix was reported for. -/
theorem exists_unit_of_due {entry : Path × String} (h : entry ∈ due a units (e.checkUnits units)) :
    ∃ v ∈ units, v.path = entry.1 ∧ ∃ fix, Fixer.ReportedFor e v fix := by
  unfold due at h
  split at h
  · exact Fixer.exists_unit_of_mem_outputs h
  · cases h

/-- A place that gets a new text is that of a unit with a path, or that of a unit file. -/
theorem named_or_spills_of_due (h : Reports fs arguments terminal a e units) {entry : Path × String}
    (hentry : entry ∈ due a units (e.checkUnits units)) (hplace : fs.locate entry.1 = .ok place) :
    Named fs a place ∨ Spills fs arguments terminal place := by
  have hask : AskToWrite arguments := by
    by_contra hnot
    rw [(due_of_reports h _).2 hnot] at hentry
    cases hentry
  rcases exists_unit_of_due hentry with ⟨v, hv, hpath, fix, hfix⟩
  rcases (Input.mem_of_units h.loaded).1 hv with ⟨file, u, hfile, hu, hplaced⟩
  rw [← hpath, Input.path_of_placeUnit hplaced] at hplace
  cases hempty : u.path.isEmpty with
  | false => exact .inl ⟨file, u, hfile, hu, hempty, hplace⟩
  | true =>
    rw [Input.placedPath, if_pos hempty] at hplace
    exact .inr ⟨hask, a, e, units, h, file, u, v, fix, hfile, hu, hempty, hplace, hplaced, hfix⟩

/-- Files that no unit names keep their texts: in particular all unit files do, unless a unit in
them has no path and has a fix that is to be written. -/
theorem unnamed_kept (fs : FileSystem) (arguments : List String) (terminal : Bool) (place : Address)
    (hnamed : ∀ a, Arguments.parse arguments = .ok a → ¬ Named fs a place)
    (hspills : ¬ Spills fs arguments terminal place) :
    (ofArguments fs arguments terminal).files.textAt? place = fs.textAt? place := by
  rcases exists_ending fs arguments terminal with h | h | h | ⟨a, e, units, h⟩
  · rw [(of_failsEarly h terminal).2]
  · rw [(of_tells h terminal).2]
  · rw [(of_breaksOff h).2]
  · rcases exists_wrote_of_reports h with ⟨done, rest, failure, hsplit, hwrote, -⟩
    -- no text that has been written leads to this place
    have hnone : textFor? fs done place = none := by
      rw [textFor?_eq_none_iff]
      intro entry hentry hplace
      have hdue : entry ∈ due a units (e.checkUnits units) :=
        hsplit ▸ List.mem_append_left rest hentry
      rcases named_or_spills_of_due h hdue hplace with hname | hspill
      · exact hnamed a h.parsed hname
      · exact hspills hspill
    rw [hwrote.texts, hnone, Option.none_or]

/-! ## One unit file -/

/-- A file with a unit that names its source. -/
def naming : FileSystem := oneUnit "A.java" 4 .int

/-- A file with a unit that names nothing. -/
def pathless : FileSystem := oneUnit "" 4 .int

/-- A unit file is kept by a run that writes to the source that it names. -/
theorem unnamed_kept_naming :
    (ofArguments naming oneArguments false).files.textAt? ["w", "A.java"] = some "i" ∧
      (ofArguments naming oneArguments false).files.textAt? ["w", "u.json"] =
        naming.textAt? ["w", "u.json"] := by
  have hunits : Input.units naming oneRequest = .ok [rounding "A.java" "f(i)" 4 .int] := by
    decide +kernel
  have hplace : naming.locate ⟨"A.java"⟩ = .ok ["w", "A.java"] := by decide +kernel
  have hother : ∀ {file u}, IsUnitFile naming oneRequest file → Holds naming file u →
      naming.locate (Input.placedPath naming file u.path) = .ok ["w", "A.java"] := by
    intro file u hfile hu
    rcases Input.exists_loaded hunits hfile hu with ⟨v, hv, hplaced⟩
    obtain rfl := List.mem_singleton.1 hv
    rw [← Input.path_of_placeUnit hplaced]
    exact hplace
  refine ⟨by decide +kernel, unnamed_kept _ _ _ _ ?_ ?_⟩
  · -- the only path that is named leads to the source
    rintro a hparsed ⟨file, u, hfile, hu, -, hnamed⟩
    cases parse_oneArguments.symm.trans hparsed
    exact absurd ((hother hfile hu).symm.trans hnamed) (by decide)
  · -- and no unit is without a path
    rintro ⟨-, a, e, units, hreports, file, u, -, -, hfile, hu, hempty, hspilled, -⟩
    cases parse_oneArguments.symm.trans hreports.parsed
    have hown := hother hfile hu
    rw [Input.placedPath, if_pos hempty] at hown
    exact absurd (hown.symm.trans hspilled) (by decide)

/-- All unit files that no unit names keep their texts. -/
def KeepsUnnamed (fs : FileSystem) (arguments : List String) (terminal : Bool) : Prop :=
  ∀ a file place, Arguments.parse arguments = .ok a → IsUnitFile fs a file →
    fs.locate file = .ok place → ¬ Named fs a place →
    (ofArguments fs arguments terminal).files.textAt? place = fs.textAt? place

/-- A unit file with a unit without a path is overwritten. -/
theorem not_keepsUnnamed_pathless : ¬ KeepsUnnamed pathless oneArguments false := by
  have hparsed : oneRequest.patterns.mapM Input.pattern =
      .ok [⟨false, [.name "u.json"], false⟩] := by decide +kernel
  have hfiles : FilePattern.files pathless [⟨false, [.name "u.json"], false⟩] = [⟨"u.json"⟩] := by
    decide +kernel
  have hread : pathless.read ⟨"u.json"⟩ = .ok (roundingText "" "f(i)" 4 .int) := by decide +kernel
  have hdecoded :
      Input.decodeUnits? (roundingText "" "f(i)" 4 .int) = some [rounding "" "f(i)" 4 .int] := by
    decide +kernel
  have hplace : pathless.locate ⟨"u.json"⟩ = .ok ["w", "u.json"] := by decide +kernel
  intro h
  have hkept := h oneRequest ⟨"u.json"⟩ _ parse_oneArguments
    ⟨_, hparsed, by rw [hfiles]; exact List.mem_cons_self⟩ hplace ?_
  · have htext :
        (ofArguments pathless oneArguments false).files.textAt? ["w", "u.json"] = some "i" := by
      decide +kernel
    exact absurd (htext.symm.trans hkept) (by decide +kernel)
  · -- the only unit has no path
    rintro ⟨file, u, ⟨patterns, hpatterns, hfile⟩, ⟨text, written, htext, hwritten, hu⟩, hpath, -⟩
    cases hparsed.symm.trans hpatterns
    rw [hfiles, List.mem_singleton] at hfile
    subst hfile
    cases hread.symm.trans htext
    cases hdecoded.symm.trans hwritten
    obtain rfl := List.mem_singleton.1 hu
    exact absurd hpath (by decide)

end Run

end CallLint
