import CallLint.Proofs.Fix.Fitting

/-!
# Validity of merged plans

Whether plans can be merged and applied is a question about each of them and each two of them,
whatever other plans are there. So a part of a list of plans that goes together goes together too.

* `agrees`: two plans do not get in each other's way.
* `validate_merge_eq_ok_iff`: a merged plan is valid if and only if each plan is valid and any two
  agree.
* `validate_merge_of_sublist`: leaving out plans never makes a merged plan invalid.
-/

namespace CallLint.FixPlan

/-- Whether some import of a plan is missing in a source, so that import lines are added. -/
def needsImports (source : List Char) (p : FixPlan) : Prop :=
  ∃ name ∈ p.imports, CallLint.imports source name = false

/-- The change that adds import lines, without its text. -/
def importPoint (source : List Char) : Splice :=
  ⟨.point (importSite source).offset, 0, "", .point (importSite source).offset⟩

/-- Whether all edits of a plan fit new import lines. -/
def fitsImports (source : List Char) (p : FixPlan) : Prop :=
  ∀ e ∈ p.edits, (Splice.ofEdit e).fits (importPoint source)

/-- Whether two plans, listed in this order, do not get in each other's way: the edits of the one
fit those of the other, and the edits of each one fit the imports of the other. -/
structure agrees (source : List Char) (p q : FixPlan) : Prop where
  edits : ∀ a ∈ p.edits, ∀ b ∈ q.edits, (Splice.ofEdit a).fits (.ofEdit b)
  right : p.needsImports source → q.fitsImports source
  left : q.needsImports source → p.fitsImports source

/-! ## One plan -/

/-- Names are missing if the plan needs imports. -/
@[simp] theorem missingImports_ne_nil_iff {source : List Char} {p : FixPlan} :
    missingImports source p.imports ≠ [] ↔ p.needsImports source := by
  rw [missingImports, needsImports, Ne, List.filter_eq_nil_iff]
  simp only [SortedSet.mem_def, Bool.not_eq_true', Classical.not_forall, Bool.not_eq_false,
    exists_prop]
  constructor
  · rintro ⟨name, hname, hmissing⟩
    exact ⟨name, hname, by simpa using hmissing⟩
  · rintro ⟨name, hname, hmissing⟩
    exact ⟨name, hname, by simpa using hmissing⟩

/-- So it has a change for them in this case alone. -/
@[simp] theorem importSplice?_eq_none_iff {source : List Char} {p : FixPlan} :
    p.importSplice? source = none ↔ ¬ p.needsImports source := by
  rw [← missingImports_ne_nil_iff]
  cases hsplice : p.importSplice? source with
  | none =>
    simp only [true_iff]
    intro hmissing
    have hblock := importBlock?_eq_some_iff.2 ⟨hmissing, rfl, rfl⟩
    rw [importSplice?, hblock] at hsplice
    cases hsplice
  | some s =>
    rcases importSplice?_eq_some_iff.1 hsplice with ⟨text, hblock, -⟩
    simp [(importBlock?_eq_some_iff.1 hblock).1]

/-- The changes of a plan fit if its edits do, and fit the import lines where there are some. -/
theorem pairwise_changes_iff {p : FixPlan} {source : List Char} :
    (p.changes source).Pairwise Splice.fits ↔
      (p.edits.map Splice.ofEdit).Pairwise Splice.fits ∧
        (p.needsImports source → p.fitsImports source) := by
  rw [changes, List.pairwise_append]
  cases hsplice : p.importSplice? source with
  | none =>
    simp [importSplice?_eq_none_iff.1 hsplice]
  | some s =>
    rcases importSplice?_eq_some_iff.1 hsplice with ⟨text, hblock, rfl⟩
    have hneeds := missingImports_ne_nil_iff.1 (importBlock?_eq_some_iff.1 hblock).1
    simp only [Option.toList_some, List.pairwise_singleton, List.forall_mem_map, List.mem_singleton,
      forall_eq, true_and, hneeds, forall_const, fitsImports]
    rfl

/-- A plan is valid if its spans can be cut out, its edits fit one another and, where import lines
are added, fit those. -/
theorem validate_eq_ok_iff_edits {p : FixPlan} {source : String} :
    p.validate source = .ok () ↔
      (∀ e ∈ p.edits, e.isWithin source.toList = true) ∧
        (p.edits.map Splice.ofEdit).Pairwise Splice.fits ∧
          (p.needsImports source.toList → p.fitsImports source.toList) := by
  rw [validate_eq_ok_iff_fits, pairwise_changes_iff]

/-! ## Merged plans -/

/-- A merged plan has the imports of all plans. -/
@[simp] theorem mem_imports_merge {plans : List FixPlan} {name : String} :
    name ∈ (merge plans).imports ↔ ∃ p ∈ plans, name ∈ p.imports := by
  -- the fold starts with no names, but the induction needs it for any
  have hfold : ∀ names : SortedSet String,
      name ∈ plans.foldl (fun names p => names.union p.imports) names ↔
        name ∈ names ∨ ∃ p ∈ plans, name ∈ p.imports := by
    induction plans with
    | nil => simp
    | cons p plans ih =>
      intro names
      rw [List.foldl_cons, ih, SortedSet.mem_union, or_assoc]
      simp only [List.mem_cons, exists_eq_or_imp]
  have hempty : ¬ name ∈ (∅ : SortedSet String) := List.not_mem_nil
  rw [merge, hfold]
  simp [hempty]

@[simp] theorem needsImports_merge {source : List Char} {plans : List FixPlan} :
    (merge plans).needsImports source ↔ ∃ p ∈ plans, p.needsImports source := by
  simp only [needsImports, mem_imports_merge]
  constructor
  · rintro ⟨name, ⟨p, hp, hname⟩, hmissing⟩
    exact ⟨p, hp, name, hname, hmissing⟩
  · rintro ⟨p, hp, name, hname, hmissing⟩
    exact ⟨name, ⟨p, hp, hname⟩, hmissing⟩

@[simp] theorem fitsImports_merge {source : List Char} {plans : List FixPlan} :
    (merge plans).fitsImports source ↔ ∀ p ∈ plans, p.fitsImports source := by
  simp only [fitsImports, merge, List.mem_flatMap]
  constructor
  · intro h p hp e he
    exact h e ⟨p, hp, he⟩
  · rintro h e ⟨p, hp, he⟩
    exact h p hp e he

/-- Whether all plans fit the imports of all plans can be asked pair by pair. -/
theorem imports_agree_iff {source : List Char} {plans : List FixPlan} :
    ((∃ p ∈ plans, p.needsImports source) → ∀ q ∈ plans, q.fitsImports source) ↔
      (∀ p ∈ plans, p.needsImports source → p.fitsImports source) ∧
        plans.Pairwise fun p q => (p.needsImports source → q.fitsImports source) ∧
          (q.needsImports source → p.fitsImports source) := by
  constructor
  · intro h
    refine ⟨fun p hp hneeds => h ⟨p, hp, hneeds⟩ p hp, ?_⟩
    apply List.pairwise_of_forall_mem_list
    intro p hp q hq
    exact ⟨fun hneeds => h ⟨p, hp, hneeds⟩ q hq, fun hneeds => h ⟨q, hq, hneeds⟩ p hp⟩
  · -- `q` may be listed before or after `p`, or be `p` itself
    rintro ⟨hself, hpairs⟩ ⟨p, hp, hneeds⟩ q hq
    have hall := hpairs.forall_of_forall_of_flip (fun x hx => ⟨hself x hx, hself x hx⟩)
      (hpairs.imp fun h => ⟨h.2, h.1⟩)
    exact (hall hp hq).1 hneeds

/-- A merged plan is valid if and only if every plan is valid and any two of them agree. -/
theorem validate_merge_eq_ok_iff {plans : List FixPlan} {source : String} :
    (merge plans).validate source = .ok () ↔
      (∀ p ∈ plans, p.validate source = .ok ()) ∧ plans.Pairwise (agrees source.toList) := by
  have hedits : (merge plans).edits = plans.flatMap (·.edits) := rfl
  -- edits and imports are counted apart: each half says something about single plans and about
  -- pairs
  have hagrees : plans.Pairwise (agrees source.toList) ↔
      plans.Pairwise (fun p q => ∀ a ∈ p.edits, ∀ b ∈ q.edits, (Splice.ofEdit a).fits (.ofEdit b)) ∧
        plans.Pairwise fun p q => (p.needsImports source.toList → q.fitsImports source.toList) ∧
          (q.needsImports source.toList → p.fitsImports source.toList) := by
    rw [← List.pairwise_and_iff]
    constructor
    · exact List.Pairwise.imp fun h => ⟨h.edits, h.right, h.left⟩
    · exact List.Pairwise.imp fun h => ⟨h.1, h.2.1, h.2.2⟩
  simp only [validate_eq_ok_iff_edits]
  rw [hagrees, needsImports_merge, fitsImports_merge, imports_agree_iff, hedits, List.map_flatMap,
    List.pairwise_flatMap]
  simp only [List.mem_flatMap, List.forall_mem_map]
  constructor
  · rintro ⟨hwithin, ⟨hown, hcross⟩, hself, himports⟩
    exact ⟨fun p hp => ⟨fun e he => hwithin e ⟨p, hp, he⟩, hown p hp, hself p hp⟩, hcross, himports⟩
  · rintro ⟨hplans, hcross, himports⟩
    refine ⟨?_, ⟨fun p hp => (hplans p hp).2.1, hcross⟩, fun p hp => (hplans p hp).2.2, himports⟩
    rintro e ⟨p, hp, he⟩
    exact (hplans p hp).1 e he

/-- Some of the plans of a valid merged plan are valid together. -/
theorem validate_merge_of_sublist {plans more : List FixPlan} {source : String}
    (h : (merge more).validate source = .ok ()) (hsub : plans.Sublist more) :
    (merge plans).validate source = .ok () := by
  rw [validate_merge_eq_ok_iff] at h ⊢
  exact ⟨fun p hp => h.1 p (hsub.subset hp), h.2.sublist hsub⟩

end CallLint.FixPlan
