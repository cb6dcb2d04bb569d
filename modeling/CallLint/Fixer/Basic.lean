import CallLint.Diagnostic
import CallLint.Diff.Unified
import CallLint.Fixer.Outcome
import CallLint.SourceUnit

/-!
# The fixer

A fixer collects fixes by file and applies those that its mode admits. In each file the fixes are
taken in the order in which they start, and a fix joins those before it only if all of them together
can be applied.

* `Fixer.mode_collect`, `Fixer.includeRisky_collect`: the settings are not those of the findings.
* `Fixer.admits`: which fixes are applied in which mode.
* `Fixer.accept`: which fixes of a file go together.
* `Fixer.applyTo`: the fixes of one file, `Fixer.applyAll`: those of all files.
-/

namespace CallLint

/-- Fixes to be applied, and how. -/
structure Fixer where
  byFile : SortedMap Path (List Fix)
  /-- How many findings have been left to a person. -/
  needsReview : Nat
  mode : FixMode
  includeRisky : Bool
deriving Repr

namespace Fixer

/-- A fixer without fixes. -/
def empty : Fixer := ⟨∅, 0, .safeOnly, false⟩

instance : Inhabited Fixer := ⟨empty⟩

/-- The fixer in another mode. -/
def withMode (f : Fixer) (mode : FixMode) : Fixer := { f with mode }

/-- The fixer with or without fixes that are not safe. Including them turns the mode of safe fixes
into that of all fixes. -/
def withRisky (f : Fixer) (risky : Bool) : Fixer :=
  { f with
    includeRisky := risky
    mode := if risky && f.mode = .safeOnly then .all else f.mode }

section Settings

variable (f : Fixer) (mode : FixMode) (risky : Bool)

@[simp] theorem mode_withMode : (f.withMode mode).mode = mode := rfl

@[simp] theorem byFile_withMode : (f.withMode mode).byFile = f.byFile := rfl

@[simp] theorem needsReview_withMode : (f.withMode mode).needsReview = f.needsReview := rfl

@[simp] theorem mode_withRisky :
    (f.withRisky risky).mode = if risky && f.mode = .safeOnly then .all else f.mode := rfl

@[simp] theorem includeRisky_withRisky : (f.withRisky risky).includeRisky = risky := rfl

@[simp] theorem byFile_withRisky : (f.withRisky risky).byFile = f.byFile := rfl

@[simp] theorem needsReview_withRisky : (f.withRisky risky).needsReview = f.needsReview := rfl

end Settings

/-! ## Collecting -/

/-- One more fix for its file. -/
def add (f : Fixer) (fix : Fix) : Fixer :=
  { f with byFile := f.byFile.alter fix.file fun fixes => fixes.getD [] ++ [fix] }

/-- The fix that a finding contributes, unless it has none or one that changes nothing. -/
def fixOf? (d : Diagnostic) : Option Fix := do
  let plan ← d.fix
  if plan.isEmpty then none else return ⟨d.location.file, d.location, plan, d.rule⟩

/-- Takes in a finding. One that is left to a person is only counted. -/
def take (f : Fixer) (d : Diagnostic) : Fixer :=
  if d.requiresReview then { f with needsReview := f.needsReview + 1 }
  else match fixOf? d with
    | some fix => f.add fix
    | none => f

/-- Takes in some findings. -/
def collect (f : Fixer) (ds : List Diagnostic) : Fixer := ds.foldl take f

@[simp] theorem mode_take (f : Fixer) (d : Diagnostic) : (f.take d).mode = f.mode := by
  unfold take
  split
  · rfl
  · split <;> rfl

@[simp] theorem includeRisky_take (f : Fixer) (d : Diagnostic) :
    (f.take d).includeRisky = f.includeRisky := by
  unfold take
  split
  · rfl
  · split <;> rfl

/-- No finding changes the mode. -/
@[simp] theorem mode_collect (f : Fixer) (ds : List Diagnostic) : (f.collect ds).mode = f.mode := by
  rw [collect]
  induction ds generalizing f with
  | nil => rfl
  | cons d ds ih => rw [List.foldl_cons, ih, mode_take]

/-- No finding lets in fixes that are not safe. -/
@[simp] theorem includeRisky_collect (f : Fixer) (ds : List Diagnostic) :
    (f.collect ds).includeRisky = f.includeRisky := by
  rw [collect]
  induction ds generalizing f with
  | nil => rfl
  | cons d ds ih => rw [List.foldl_cons, ih, includeRisky_take]

/-- How many fixes there are. -/
def size (f : Fixer) : Nat := f.byFile.values.flatten.length

/-- Whether a fix may be applied. -/
def admits (f : Fixer) (fix : Fix) : Bool :=
  match fix.safety, f.mode with
  | .displayOnly, _ => false
  | .safe, _ => true
  | .risky, .all => true
  | .risky, .safeOnly => false
  | .risky, .diff | .risky, .showOnly => f.includeRisky

/-! ## Applying -/

/-- The smallest offset where an edit of a fix starts, if it has edits. -/
def firstStart? (fix : Fix) : Option Nat := (fix.plan.edits.map (·.span.start)).min?

/-- Whether a fix is taken no later than another one. A fix without edits comes first. -/
def startsBefore (a b : Fix) : Bool :=
  match firstStart? a, firstStart? b with
  | none, _ => true
  | some _, none => false
  | some m, some n => m ≤ n

/-- The admitted fixes among some, in the order in which they are taken. -/
def queue (f : Fixer) (fixes : List Fix) : List Fix :=
  (fixes.filter f.admits).mergeSort startsBefore

/-- Goes through fixes with some that are accepted already: each one is accepted if it can be
applied together with them. The second list holds the others, with the reasons. -/
def accept (source : String) (accepted : List Fix) : List Fix → List Fix × List (Fix × EditError)
  | [] => (accepted, [])
  | fix :: rest =>
    match (FixPlan.merge ((accepted ++ [fix]).map (·.plan))).validate source with
    | .ok () => accept source (accepted ++ [fix]) rest
    | .error cause =>
      let (all, rejected) := accept source accepted rest
      (all, (fix, cause) :: rejected)

/-- The difference of a file. -/
def diffOf (file : Path) (old new : String) : String :=
  Diff.unified s!"a/{file.text}" s!"b/{file.text}" old new

/-- Writes down the new text of a file, which some fixes have made, if it is new. -/
def record (f : Fixer) (file : Path) (source new : String) (fixes : List Fix) (o : FixOutcome) :
    FixOutcome :=
  if new = source then o
  else
    let o := o.countApplied fixes
    { o with
      filesModified := o.filesModified + 1
      outputs := o.outputs.insert file new
      diffs := if f.mode = .diff then o.diffs.insert file (diffOf file source new) else o.diffs }

/-- Applies fixes to the source of their file, on top of an outcome. -/
def applyTo (f : Fixer) (file : Path) (source : String) (fixes : List Fix) (o : FixOutcome) :
    FixOutcome :=
  let queue := f.queue fixes
  let o := { o with skipped := o.skipped + (fixes.length - queue.length) }
  if f.mode = .showOnly then o.countApplied queue
  else
    let (accepted, rejected) := accept source [] queue
    let o := o.countFailed rejected.length
      (rejected.map fun (fix, cause) => .rejected file fix.location.line fix.rule cause)
    match (FixPlan.merge (accepted.map (·.plan))).apply source with
    | .error cause => o.countFailed accepted.length [.unusable file cause]
    | .ok new => f.record file source new accepted o

/-- Applies the fixes of one file to the unit with its path. -/
def applyFile (f : Fixer) (units : List SourceUnit) (o : FixOutcome) (entry : Path × List Fix) :
    FixOutcome :=
  match units.find? (·.path.same entry.1) with
  | none => o.countFailed entry.2.length [.noUnit entry.1]
  | some u => f.applyTo entry.1 u.source entry.2 o

/-- Applies all fixes to the units with their paths. -/
def applyAll (f : Fixer) (units : List SourceUnit) : FixOutcome :=
  f.byFile.toList.foldl (f.applyFile units) { FixOutcome.empty with needsReview := f.needsReview }

/-! ## Showing -/

/-- Whether a fix is shown no later than another one: by file, line and column. -/
def shownBefore (a b : Fix) : Bool :=
  ((compare a.file b.file).then ((compare a.location.line b.location.line).then
    (compare a.location.column b.location.column))).isLE

/-- The admitted fixes, in the order in which they are shown. -/
def pending (f : Fixer) : List Fix :=
  (f.byFile.values.flatten.filter f.admits).mergeSort shownBefore

/-- A fix on a line of its own. -/
def renderFix (fix : Fix) : String :=
  let description := if fix.plan.description.isEmpty then "No description" else fix.plan.description
  s!"  Line {fix.location.line}: [{fix.safety.word}] {fix.rule} - {description}\n"

/-- Fixes, under the name of their file where a new file starts. -/
def renderFixes (current : Option Path) : List Fix → String
  | [] => ""
  | fix :: rest =>
    let head := if current.any (·.same fix.file) then "" else s!"{fix.file.text}:\n"
    head ++ renderFix fix ++ renderFixes (some fix.file) rest

/-- The admitted fixes as a text. -/
def renderPending (f : Fixer) : String :=
  let fixes := f.pending
  if fixes.isEmpty then "No fixes available.\n"
  else s!"Found {fixes.length} fix(es):\n\n" ++ renderFixes none fixes

end Fixer

end CallLint
