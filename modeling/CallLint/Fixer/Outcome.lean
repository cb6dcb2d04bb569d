import CallLint.Fix.Plan
import CallLint.Location
import CallLint.Sorted.Map

/-!
# Fixes and what became of them

A fix is a plan for one file. Applying fixes counts what became of each of them, and keeps the new
texts.

* `FixOutcome.renderDiffs`: the differences as one text.
* `FixFailure.message`: why a fix was not applied, in words.
-/

namespace CallLint

/-- A plan for one file. -/
structure Fix where
  file : Path
  location : Location
  plan : FixPlan
  rule : String
deriving DecidableEq, Repr

/-- How far a fix may be trusted. -/
def Fix.safety (f : Fix) : Safety := f.plan.safety

/-- What is done with fixes. -/
inductive FixMode where
  | safeOnly
  | all
  /-- Differences are shown too. -/
  | diff
  /-- Nothing is changed. -/
  | showOnly
deriving DecidableEq, Repr

instance : Inhabited FixMode := ⟨.safeOnly⟩

/-- Why fixes were not applied. -/
inductive FixFailure where
  | noUnit (file : Path)
  /-- A fix does not go together with those before it. -/
  | rejected (file : Path) (line : Nat) (rule : String) (cause : EditError)
  /-- All fixes of a file together cannot be applied. -/
  | unusable (file : Path) (cause : EditError)
deriving DecidableEq, Repr

namespace FixFailure

/-- A failure in words. -/
def message : FixFailure → String
  | .noUnit file => s!"{file.text}: no compilation unit for fixes"
  | .rejected file line rule cause => s!"{file.text}:{line}: {rule}: {cause.message}"
  | .unusable file cause => s!"{file.text}: {cause.message}"

end FixFailure

/-- What became of some fixes. -/
structure FixOutcome where
  filesModified : Nat
  applied : Nat
  safeApplied : Nat
  riskyApplied : Nat
  failed : Nat
  /-- The fixes that are not admitted. -/
  skipped : Nat
  /-- The findings that are left to a person. -/
  needsReview : Nat
  failures : List FixFailure
  /-- The new text of each file that changed. -/
  outputs : SortedMap Path String
  /-- The difference of each file that changed. -/
  diffs : SortedMap Path String
deriving Repr

namespace FixOutcome

/-- No fixes. -/
def empty : FixOutcome := ⟨0, 0, 0, 0, 0, 0, 0, [], ∅, ∅⟩

instance : Inhabited FixOutcome := ⟨empty⟩

/-- Counts fixes that were applied. -/
def countApplied (o : FixOutcome) (fixes : List Fix) : FixOutcome :=
  let safe := fixes.countP (·.safety = .safe)
  { o with
    applied := o.applied + fixes.length
    safeApplied := o.safeApplied + safe
    riskyApplied := o.riskyApplied + (fixes.length - safe) }

/-- Counts fixes that failed. -/
def countFailed (o : FixOutcome) (count : Nat) (failures : List FixFailure) : FixOutcome :=
  { o with failed := o.failed + count, failures := o.failures ++ failures }

/-- The differences, each under a line with the name of its file. -/
def renderDiffs (o : FixOutcome) : String :=
  .join (o.diffs.toList.map fun (file, diff) =>
    s!"diff --sitefix a/{file.text} b/{file.text}\n" ++ diff ++ "\n")

end FixOutcome

end CallLint
