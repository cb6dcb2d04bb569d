import CallLint.Fix.Edit
import CallLint.Fix.Import

/-!
# Fix plans

A fix plan is a list of edits and a set of imports for one source. Applying it checks every edit,
puts all changes into the order of their targets, refuses targets that overlap, and writes the
source with the changes in one pass.

* `FixPlan.merge`: several plans as one.
* `FixPlan.splices`: the checked changes of a plan in order, or the error.
* `FixPlan.apply`: the changed source. `validate_eq_ok_iff`: it exists if and only if the plan is
  valid.
-/

namespace CallLint

/-- Changes to one source. -/
structure FixPlan where
  description : String
  edits : List Edit
  /-- The names of the classes to import. -/
  imports : SortedSet String
  safety : Safety
deriving DecidableEq, Repr

namespace FixPlan

/-- The plan that changes nothing. -/
def empty : FixPlan := ⟨"", [], ∅, .safe⟩

instance : Inhabited FixPlan := ⟨empty⟩

/-! ## Building -/

/-- The plan with one more edit at the end. -/
def addEdit (p : FixPlan) (e : Edit) : FixPlan := { p with edits := p.edits ++ [e] }

/-- Puts a text before a span. -/
def insertBefore (p : FixPlan) (span : Span) (text : String) : FixPlan :=
  p.addEdit ⟨.before, span, text⟩

/-- Puts a text in place of a span. -/
def replaceSpan (p : FixPlan) (span : Span) (text : String) : FixPlan :=
  p.addEdit ⟨.instead, span, text⟩

/-- Puts a text after a span. -/
def insertAfter (p : FixPlan) (span : Span) (text : String) : FixPlan :=
  p.addEdit ⟨.after, span, text⟩

/-- The plan with one more import. -/
def addImport (p : FixPlan) (name : String) : FixPlan := { p with imports := p.imports.insert name }

/-- The plan that replaces one span. -/
def replacing (span : Span) (text : String) : FixPlan := empty.replaceSpan span text

/-- Whether a plan has neither edits nor imports. -/
def isEmpty (p : FixPlan) : Bool := p.edits.isEmpty && p.imports.isEmpty

/-- Whether a plan keeps the meaning of the program. -/
def isSafe (p : FixPlan) : Bool := p.safety = .safe

/-- The texts of the edits in the order in which they were added. -/
def preview (p : FixPlan) : String := .join (p.edits.map (·.text))

/-- Several plans as one. Its safety is that of the last plan that is not safe. -/
def merge (plans : List FixPlan) : FixPlan where
  description := "; ".intercalate ((plans.map (·.description)).filter (!·.isEmpty))
  edits := plans.flatMap (·.edits)
  imports := plans.foldl (fun names p => names.union p.imports) ∅
  safety := (((plans.filter (!·.isSafe)).getLast?).map (·.safety)).getD .safe

/-! ## Checking -/

/-- A checked change: the bytes of `target` give way to `text`. -/
structure Splice where
  target : Span
  rank : Nat
  text : String
  /-- The span that the change was anchored to. -/
  origin : Span
deriving DecidableEq, Repr

/-- The change that an edit makes to a source. -/
def spliceOf (source : List Char) (e : Edit) : Except EditError Splice :=
  if e.span.stop < e.span.start || Text.byteSize source < e.span.stop then
    .error (.outOfBounds e.span (Text.byteSize source))
  else if !Text.isBoundary e.span.start source || !Text.isBoundary e.span.stop source then
    .error (.insideCharacter e.span)
  else .ok ⟨e.target, e.rank, e.text, e.span⟩

/-- The change that the imports of a plan make to a source, if any. -/
def importSplice? (p : FixPlan) (source : List Char) : Option Splice :=
  (importBlock? source p.imports).map fun (offset, text) =>
    ⟨.point offset, 0, text, .point offset⟩

/-- Whether a change comes no later than another one: by the start of the target, then by rank. -/
def Splice.le (a b : Splice) : Bool :=
  a.target.start < b.target.start || (a.target.start = b.target.start && a.rank ≤ b.rank)

/-- Whether a change gets in the way of the change before it. -/
def Splice.collides (previous next : Splice) : Bool :=
  next.target.start < previous.target.stop
    || (previous.target = next.target && !previous.target.isEmpty)

/-- The first two neighbours that get in each other's way. -/
def collision? : List Splice → Option (Splice × Splice)
  | a :: b :: rest => if a.collides b then some (a, b) else collision? (b :: rest)
  | _ => none

/-- The changes that a plan makes to a source, in the order of their targets. -/
def splices (p : FixPlan) (source : List Char) : Except EditError (List Splice) := do
  let own ← p.edits.mapM (spliceOf source)
  let ordered := (own ++ (p.importSplice? source).toList).mergeSort Splice.le
  match collision? ordered with
  | some (a, b) => .error (.overlap a.origin b.origin)
  | none => .ok ordered

/-- Whether a plan can be applied to a source. -/
def validate (p : FixPlan) (source : String) : Except EditError Unit := do
  let _ ← p.splices source.toList

/-! ## Applying -/

/-- Writes the rest of a source from an offset on, with changes in the order of their targets. -/
def weave (offset : Nat) (rest : List Char) : List Splice → List Char
  | [] => rest
  | s :: more =>
    Text.takeBytes (s.target.start - offset) rest ++ s.text.toList
      ++ weave s.target.stop (Text.dropBytes (s.target.stop - offset) rest) more

/-- The source with the changes of a plan. -/
def apply (p : FixPlan) (source : String) : Except EditError String := do
  return .ofList (weave 0 source.toList (← p.splices source.toList))

/-- A plan is valid exactly if it can be applied. -/
theorem validate_eq_ok_iff {p : FixPlan} {source : String} :
    p.validate source = .ok () ↔ ∃ out, p.apply source = .ok out := by
  unfold validate apply
  cases p.splices source.toList <;> simp [bind, Except.bind, pure, Except.pure]

end FixPlan

end CallLint
