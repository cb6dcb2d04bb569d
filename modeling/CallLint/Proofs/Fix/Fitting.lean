import CallLint.Fix.Plan
import CallLint.Proofs.Passes
import CallLint.Proofs.Ranking
import CallLint.Proofs.Text.Bytes

/-!
# Which changes go together

Whether a plan can be applied is decided by a look at neighbours after sorting. The same can be said
of the changes as they are listed: each span can be cut out of the source, and any two changes fit,
that is, the one that is written first ends where the other one starts, or before.

* `fits_of_overlaps_eq_false`: edits of spans that lie apart fit.
* `collision?_eq_none_iff`: in a sorted list, neighbours decide about all pairs.
* `splices_eq_ok_iff`, `validate_eq_ok_iff_fits`: when a plan is valid, and what its sorted changes
  are.
-/

namespace CallLint

/-! ## Missing imports -/

/-- The names that a source does not import yet. -/
def missingImports (source : List Char) (names : SortedSet String) : List String :=
  names.toList.filter (!imports source ·)

/-- A block of import lines is written if a name is missing, with a line for each missing one. -/
theorem importBlock?_eq_some_iff {source : List Char} {names : SortedSet String} {offset : Nat}
    {text : String} :
    importBlock? source names = some (offset, text) ↔
      missingImports source names ≠ [] ∧ (importSite source).offset = offset ∧
        (importSite source).opening ++ .join ((missingImports source names).map importLine)
          ++ (importSite source).closing = text := by
  have hblock : importBlock? source names =
      if (missingImports source names).isEmpty then none
      else some ((importSite source).offset,
        (importSite source).opening ++ .join ((missingImports source names).map importLine)
          ++ (importSite source).closing) := rfl
  rw [hblock]
  cases missingImports source names <;> simp

/-! ## Changes -/

/-- Whether the span of an edit can be cut out of a source. -/
def Edit.isWithin (source : List Char) (e : Edit) : Bool :=
  e.span.start ≤ e.span.stop && Text.isBoundary e.span.start source
    && Text.isBoundary e.span.stop source

namespace FixPlan

namespace Splice

/-- The change that an edit stands for. -/
def ofEdit (e : Edit) : Splice := ⟨e.target, e.rank, e.text, e.span⟩

/-- Whether two changes can be made together: the one that is written first ends no later than the
other one starts. Of two changes at the same place and of the same rank the one listed first is
written first. -/
def fits (a b : Splice) : Prop :=
  if a.le b = true then a.target.stop ≤ b.target.start else b.target.stop ≤ a.target.start

instance (a b : Splice) : Decidable (a.fits b) := inferInstanceAs (Decidable (ite _ _ _))

/-- Whether the target of a change can be cut out of a source. -/
def isWithin (source : List Char) (s : Splice) : Prop :=
  s.target.start ≤ s.target.stop ∧ Text.isBoundary s.target.start source = true ∧
    Text.isBoundary s.target.stop source = true

/-- Changes are written in the order of their starts, and then of their ranks. -/
@[simp] theorem le_iff {a b : Splice} : a.le b = true ↔
    a.target.start < b.target.start ∨ (a.target.start = b.target.start ∧ a.rank ≤ b.rank) := by
  simp [le]

/-- All changes can be ranked so. -/
theorem ranking_le : Ranking Splice.le where
  trans a b c hab hbc := by
    rw [le_iff] at hab hbc ⊢
    omega
  total a b := by
    rw [Bool.or_eq_true, le_iff, le_iff]
    omega

/-- The target of an edit is its span, or one of the ends of that. -/
theorem isWithin_ofEdit {source : List Char} {e : Edit} (h : e.isWithin source = true) :
    (ofEdit e).isWithin source := by
  simp only [Edit.isWithin, Bool.and_eq_true, decide_eq_true_eq] at h
  rcases h with ⟨⟨hle, hstart⟩, hstop⟩
  cases hplace : e.place <;>
    simp [ofEdit, isWithin, Edit.target, hplace, Span.point, hle, hstart, hstop]

end Splice

/-- The changes that a plan makes to a source, in the order of its list of edits, the imports
last. -/
def changes (p : FixPlan) (source : List Char) : List Splice :=
  p.edits.map .ofEdit ++ (p.importSplice? source).toList

/-! ## Single edits -/

/-- An edit can be written if its span can be cut out. -/
theorem spliceOf_eq_ok_iff {source : List Char} {e : Edit} {s : Splice} :
    spliceOf source e = .ok s ↔ e.isWithin source = true ∧ Splice.ofEdit e = s := by
  unfold spliceOf
  split
  · -- the ends are not in order, or not in the source
    next hbounds =>
    simp only [Bool.or_eq_true, decide_eq_true_eq] at hbounds
    simp only [reduceCtorEq, Edit.isWithin, Bool.and_eq_true, decide_eq_true_eq, false_iff]
    rintro ⟨⟨⟨hle, -⟩, hstop⟩, -⟩
    have hsize := Text.le_byteSize_of_isBoundary hstop
    omega
  · next hbounds =>
    simp only [Bool.or_eq_true, decide_eq_true_eq, not_or, Nat.not_lt] at hbounds
    split
    · -- an end is inside a character
      next hinside =>
      simp only [Bool.or_eq_true, Bool.not_eq_true'] at hinside
      simp only [reduceCtorEq, Edit.isWithin, Bool.and_eq_true, false_iff]
      rintro ⟨⟨⟨-, hstart⟩, hstop⟩, -⟩
      rcases hinside with h | h <;> simp_all
    · next hinside =>
      simp only [Bool.or_eq_true, Bool.not_eq_true', not_or, Bool.not_eq_false] at hinside
      simp [Edit.isWithin, hbounds.1, hinside.1, hinside.2, Splice.ofEdit]

/-- So edits can be written if all their spans can be cut out. -/
theorem mapM_spliceOf_eq_ok_iff {source : List Char} {es : List Edit} {own : List Splice} :
    es.mapM (spliceOf source) = .ok own ↔
      (∀ e ∈ es, e.isWithin source = true) ∧ es.map Splice.ofEdit = own := by
  induction es generalizing own with
  | nil => simp [pure, Except.pure]
  | cons e es ih =>
    rw [mapM_cons_eq_ok_iff, List.forall_mem_cons, List.map_cons]
    simp only [spliceOf_eq_ok_iff, ih]
    constructor
    · rintro ⟨s, rest, ⟨hwithin, rfl⟩, ⟨hall, rfl⟩, rfl⟩
      exact ⟨⟨hwithin, hall⟩, rfl⟩
    · rintro ⟨⟨hwithin, hall⟩, rfl⟩
      exact ⟨_, _, ⟨hwithin, rfl⟩, ⟨hall, rfl⟩, rfl⟩

/-! ## Two edits -/

/-- Edits of spans that do not overlap fit, wherever they put their texts. -/
theorem fits_of_overlaps_eq_false {a b : Edit} (ha : a.span.isEmpty = false)
    (hb : b.span.isEmpty = false) (h : a.span.overlaps b.span = false) :
    (Splice.ofEdit a).fits (.ofEdit b) := by
  rw [Span.isEmpty_eq_false_iff] at ha hb
  rw [Span.overlaps_eq_false_iff] at h
  -- nine pairs of places, each a question about four offsets
  simp only [Splice.fits, Splice.le_iff, Splice.ofEdit]
  cases hplace : a.place <;> cases hplace' : b.place <;>
    simp only [Edit.target, Edit.rank, Span.point, hplace, hplace'] <;> split <;> omega

/-- Edits that replace spans fit only if the spans do not overlap. -/
theorem overlaps_eq_false_of_fits {s t : Span} {x y : String}
    (h : (Splice.ofEdit ⟨.instead, s, x⟩).fits (.ofEdit ⟨.instead, t, y⟩)) :
    s.overlaps t = false := by
  rw [Span.overlaps_eq_false_iff]
  simp only [Splice.fits, Splice.le_iff, Splice.ofEdit, Edit.target, Edit.rank] at h
  split at h <;> omega

/-! ## Neighbours and pairs -/

/-- Neighbours collide if the second one starts before the first one ends. -/
@[simp] theorem collides_iff {a b : Splice} :
    a.collides b = true ↔ b.target.start < a.target.stop := by
  simp only [Splice.collides, Span.isEmpty, Bool.or_eq_true, decide_eq_true_eq, Bool.and_eq_true,
    Bool.not_eq_true', decide_eq_false_iff_not, Nat.not_le]
  constructor
  · rintro (h | ⟨heq, hne⟩)
    · exact h
    · rw [← heq]
      exact hne
  · exact .inl

/-- In a list of changes whose targets have their ends in order, it is enough to look at
neighbours. -/
theorem collision?_eq_none_iff {l : List Splice} (hl : ∀ s ∈ l, s.target.start ≤ s.target.stop) :
    collision? l = none ↔ l.Pairwise fun a b => a.target.stop ≤ b.target.start := by
  induction l with
  | nil => simp [collision?]
  | cons a l ih =>
    cases l with
    | nil => simp [collision?]
    | cons b rest =>
      have hrest := ih fun s hs => hl s (List.mem_cons_of_mem a hs)
      unfold collision?
      split
      · -- neighbours that collide are a pair that does
        next hcollides =>
        rw [collides_iff] at hcollides
        simp only [reduceCtorEq, List.pairwise_cons, false_iff]
        intro h
        have hab := h.1 b List.mem_cons_self
        omega
      · next hfree =>
        rw [collides_iff, Nat.not_lt] at hfree
        rw [hrest, List.pairwise_cons (a := a)]
        refine ⟨fun h => ⟨fun c hc => ?_, h⟩, fun h => h.2⟩
        rcases List.mem_cons.1 hc with rfl | hc
        · exact hfree
        · -- the chain goes on through `b`
          have hb := hl b (by simp)
          have hbc := (List.pairwise_cons.1 h).1 c hc
          omega

/-! ## Whole plans -/

/-- The imports of a plan are one change, at their place. -/
theorem importSplice?_eq_some_iff {p : FixPlan} {source : List Char} {s : Splice} :
    p.importSplice? source = some s ↔
      ∃ text, importBlock? source p.imports = some ((importSite source).offset, text) ∧
        (⟨.point (importSite source).offset, 0, text, .point (importSite source).offset⟩ : Splice) =
          s := by
  rw [importSplice?, Option.map_eq_some_iff]
  constructor
  · rintro ⟨⟨offset, text⟩, hblock, rfl⟩
    rcases importBlock?_eq_some_iff.1 hblock with ⟨-, rfl, -⟩
    exact ⟨text, hblock, rfl⟩
  · rintro ⟨text, hblock, rfl⟩
    exact ⟨_, hblock, rfl⟩

/-- A plan without imports changes what its edits say. -/
theorem changes_of_imports_eq_empty {p : FixPlan} (h : p.imports = ∅) (source : List Char) :
    p.changes source = p.edits.map .ofEdit := by
  have hnone : p.importSplice? source = none := by
    rw [importSplice?, h]
    rfl
  rw [changes, hnone, Option.toList_none, List.append_nil]

/-- The targets of all changes have their ends in order. -/
theorem start_le_stop_of_mem_changes {p : FixPlan} {source : List Char}
    (h : ∀ e ∈ p.edits, e.isWithin source = true) {s : Splice} (hs : s ∈ p.changes source) :
    s.target.start ≤ s.target.stop := by
  rcases List.mem_append.1 hs with hs | hs
  · rcases List.mem_map.1 hs with ⟨e, he, rfl⟩
    exact (Splice.isWithin_ofEdit (h e he)).1
  · -- that of the imports is a point
    rw [Option.mem_toList] at hs
    rcases importSplice?_eq_some_iff.1 hs with ⟨text, -, rfl⟩
    exact Nat.le_refl _

/-- A plan has sorted changes if every span can be cut out and any two changes fit. -/
theorem splices_eq_ok_iff {p : FixPlan} {source : List Char} {l : List Splice} :
    p.splices source = .ok l ↔
      (∀ e ∈ p.edits, e.isWithin source = true) ∧ (p.changes source).Pairwise Splice.fits ∧
        (p.changes source).mergeSort Splice.le = l := by
  unfold splices
  cases hown : p.edits.mapM (spliceOf source) with
  | error cause =>
    simp only [bind, Except.bind, reduceCtorEq, false_iff]
    rintro ⟨hall, -⟩
    rw [mapM_spliceOf_eq_ok_iff.2 ⟨hall, rfl⟩] at hown
    cases hown
  | ok own =>
    rcases mapM_spliceOf_eq_ok_iff.1 hown with ⟨hall, rfl⟩
    -- the look at neighbours says of the sorted list what `fits` says of the listed one
    have hsorted : ∀ s ∈ (p.changes source).mergeSort Splice.le, s.target.start ≤ s.target.stop :=
      fun s hs => start_le_stop_of_mem_changes hall (List.mem_mergeSort.1 hs)
    have hpairs : collision? ((p.changes source).mergeSort Splice.le) = none ↔
        (p.changes source).Pairwise Splice.fits := by
      rw [collision?_eq_none_iff hsorted, Splice.ranking_le.pairwise_mergeSort_iff]
      rfl
    have hchanges :
        p.edits.map Splice.ofEdit ++ (p.importSplice? source).toList = p.changes source := rfl
    simp only [bind, Except.bind, hchanges]
    cases hcollision : collision? ((p.changes source).mergeSort Splice.le) with
    | none =>
      simp only [← hpairs, hcollision, Except.ok.injEq, true_and]
      exact ⟨fun h => ⟨hall, h⟩, fun h => h.2⟩
    | some pair => simp [← hpairs, hcollision]

/-- So a plan is valid under the same conditions. -/
theorem validate_eq_ok_iff_fits {p : FixPlan} {source : String} :
    p.validate source = .ok () ↔
      (∀ e ∈ p.edits, e.isWithin source.toList = true) ∧
        (p.changes source.toList).Pairwise Splice.fits := by
  have hsplices : p.validate source = .ok () ↔ ∃ l, p.splices source.toList = .ok l := by
    unfold validate
    cases p.splices source.toList <;> simp [bind, Except.bind, pure, Except.pure]
  rw [hsplices]
  simp only [splices_eq_ok_iff]
  constructor
  · rintro ⟨l, hwithin, hfits, -⟩
    exact ⟨hwithin, hfits⟩
  · rintro ⟨hwithin, hfits⟩
    exact ⟨_, hwithin, hfits, rfl⟩

end FixPlan

end CallLint
