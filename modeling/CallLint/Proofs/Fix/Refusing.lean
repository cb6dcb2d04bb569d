import CallLint.Proofs.Fix.Fitting

/-!
# Why a plan is refused

A plan is refused for the first edit whose span cannot be cut out of the source. If there is none,
it is refused for two changes of which the one that is written first reaches into the other one.
Only neighbours are compared after sorting, but in the order of writing this says everything about
all pairs.

* `Span.CutsOut`: the spans that can be cut out of a source.
* `comesBefore`: the order of writing, said of the changes as they are listed.
* `pairwise_mergeSort_le_iff`: what holds along the sorted changes.
* `Refusal`: the reasons for each error.
* `refusals`: when a plan is refused, and that the error gives a reason.
-/

namespace CallLint

/-- Whether a span can be cut out of a source: its ends are in order, in the source, and not inside
a character. -/
structure Span.CutsOut (source : List Char) (s : Span) : Prop where
  ordered : s.start ≤ s.stop
  inside : s.stop ≤ Text.byteSize source
  opens : Text.isBoundary s.start source = true
  closes : Text.isBoundary s.stop source = true

theorem Span.cutsOut_iff {source : List Char} {s : Span} :
    s.CutsOut source ↔ s.start ≤ s.stop ∧ s.stop ≤ Text.byteSize source ∧
      Text.isBoundary s.start source = true ∧ Text.isBoundary s.stop source = true :=
  ⟨fun h => ⟨h.ordered, h.inside, h.opens, h.closes⟩, fun h => ⟨h.1, h.2.1, h.2.2.1, h.2.2.2⟩⟩

instance (source : List Char) (s : Span) : Decidable (s.CutsOut source) :=
  decidable_of_iff' _ Span.cutsOut_iff

@[simp] theorem Edit.isWithin_iff {source : List Char} {e : Edit} :
    e.isWithin source = true ↔ e.span.CutsOut source := by
  rw [isWithin, Bool.and_eq_true, Bool.and_eq_true, decide_eq_true_eq]
  constructor
  · rintro ⟨⟨hordered, hopens⟩, hcloses⟩
    exact ⟨hordered, Text.le_byteSize_of_isBoundary hcloses, hopens, hcloses⟩
  · intro h
    exact ⟨⟨h.ordered, h.opens⟩, h.closes⟩

namespace FixPlan

/-! ## The order of writing -/

/-- Whether of some listed changes the one at position `i` is written before the one at position
`j`: its target starts earlier, or at the same offset and it has a lower rank, or the same rank and
it is listed earlier. -/
def comesBefore (l : List Splice) (i j : Fin l.length) : Prop :=
  l[i].target.start < l[j].target.start ∨
    l[i].target.start = l[j].target.start ∧
      (l[i].rank < l[j].rank ∨ l[i].rank = l[j].rank ∧ i.val < j.val)

instance (l : List Splice) (i j : Fin l.length) : Decidable (comesBefore l i j) :=
  inferInstanceAs (Decidable (_ ∨ _))

/-- What holds along the sorted changes holds of any two listed ones, taken in the order of
writing. -/
theorem pairwise_mergeSort_le_iff {r : Splice → Splice → Prop} (l : List Splice) :
    (l.mergeSort Splice.le).Pairwise r ↔ ∀ i j, comesBefore l i j → r l[i] l[j] := by
  rw [Splice.ranking_le.pairwise_mergeSort_iff, List.pairwise_iff_getElem]
  simp only [Splice.le_iff, comesBefore, Fin.getElem_fin]
  constructor
  · intro h i j hij
    rcases Nat.lt_trichotomy i.val j.val with hlt | heq | hgt
    · -- listed in the order of writing
      have hpair := h i j i.isLt j.isLt hlt
      rwa [if_pos (by omega)] at hpair
    · -- no change comes before itself
      obtain rfl := Fin.ext heq
      omega
    · -- listed the other way round
      have hpair := h j i j.isLt i.isLt hgt
      rwa [if_neg (by omega)] at hpair
  · intro h i j hi hj hlt
    split
    · exact h ⟨i, hi⟩ ⟨j, hj⟩ (by dsimp only; omega)
    · exact h ⟨j, hj⟩ ⟨i, hi⟩ (by dsimp only; omega)

/-- Whether the targets of changes lie one behind the other, in the order of writing. -/
def Apart (l : List Splice) : Prop :=
  ∀ i j, comesBefore l i j → l[i].target.stop ≤ l[j].target.start

instance (l : List Splice) : Decidable (Apart l) := inferInstanceAs (Decidable (∀ _, _))

/-! ## Single edits -/

/-- What is wrong with a span that cannot be cut out of a source: its ends are not in order or not
in the source, or else one of them is inside a character. -/
def cutError (source : List Char) (s : Span) : EditError :=
  if s.stop < s.start ∨ Text.byteSize source < s.stop then .outOfBounds s (Text.byteSize source)
  else .insideCharacter s

/-- An edit cannot be written if its span cannot be cut out, and then this is the error. -/
theorem spliceOf_eq_error_iff {source : List Char} {e : Edit} {cause : EditError} :
    spliceOf source e = .error cause ↔
      ¬ e.span.CutsOut source ∧ cutError source e.span = cause := by
  rw [← Edit.isWithin_iff]
  cases hsplice : spliceOf source e with
  | ok s => simp [(spliceOf_eq_ok_iff.1 hsplice).1]
  | error found =>
    have hnot : ¬ e.isWithin source = true := by
      intro hwithin
      rw [spliceOf_eq_ok_iff.2 ⟨hwithin, rfl⟩] at hsplice
      cases hsplice
    -- both go by the bounds first, and then by the characters
    have hfound : cutError source e.span = found := by
      simp only [spliceOf, Bool.or_eq_true, decide_eq_true_eq] at hsplice
      unfold cutError
      split at hsplice
      · next hbounds =>
        rw [if_pos hbounds]
        exact Except.error.inj hsplice
      · next hbounds =>
        rw [if_neg hbounds]
        split at hsplice
        · exact Except.error.inj hsplice
        · cases hsplice
    rw [Except.error.injEq, hfound]
    exact ⟨fun h => ⟨hnot, h⟩, fun h => h.2⟩

/-! ## Neighbours -/

/-- A collision that is found is one of neighbours. -/
theorem exists_of_collision? {l : List Splice} {a b : Splice} (h : collision? l = some (a, b)) :
    ∃ front back, l = front ++ a :: b :: back ∧ b.target.start < a.target.stop := by
  fun_induction collision? l with
  | case1 first second rest hcollides =>
    cases h
    exact ⟨[], rest, rfl, collides_iff.1 hcollides⟩
  | case2 first second rest hfree ih =>
    rcases ih h with ⟨front, back, hrest, hab⟩
    exact ⟨first :: front, back, by rw [hrest]; rfl, hab⟩
  | case3 => cases h

/-- Neighbours of the sorted list are two of the listed changes, in the order of writing. -/
theorem exists_comesBefore_of_collision? {l : List Splice} {a b : Splice}
    (h : collision? (l.mergeSort Splice.le) = some (a, b)) :
    ∃ i j, comesBefore l i j ∧ l[j].target.start < l[i].target.stop ∧ l[i] = a ∧ l[j] = b := by
  rcases exists_of_collision? h with ⟨front, back, hsorted, hab⟩
  -- if no such positions existed, `a` would not come before `b` in the sorted list either
  apply Classical.byContradiction
  intro hnone
  have hpairs : (l.mergeSort Splice.le).Pairwise fun x y => ¬ (x = a ∧ y = b) := by
    rw [pairwise_mergeSort_le_iff]
    rintro i j hij ⟨rfl, rfl⟩
    exact hnone ⟨i, j, hij, hab, rfl, rfl⟩
  rw [hsorted, List.pairwise_append, List.pairwise_cons] at hpairs
  exact hpairs.2.1.1 b List.mem_cons_self ⟨rfl, rfl⟩

/-! ## Whole plans -/

variable {p : FixPlan}

/-- The first edit whose span cannot be cut out decides, whatever else is wrong. -/
theorem splices_of_not_cutsOut {source : List Char} {before after : List Edit} {e : Edit}
    (hedits : p.edits = before ++ e :: after) (hbefore : ∀ b ∈ before, b.span.CutsOut source)
    (he : ¬ e.span.CutsOut source) : p.splices source = .error (cutError source e.span) := by
  have hpass : p.edits.mapM (spliceOf source) = .error (cutError source e.span) := by
    refine mapM_eq_error_iff.2 ⟨before, e, after, hedits, ?_, spliceOf_eq_error_iff.2 ⟨he, rfl⟩⟩
    intro b hb
    exact ⟨_, spliceOf_eq_ok_iff.2 ⟨Edit.isWithin_iff.2 (hbefore b hb), rfl⟩⟩
  rw [splices, hpass]
  rfl

/-- If all spans can be cut out, the neighbours in the order of writing decide. -/
theorem splices_of_cutsOut {source : List Char} (h : ∀ e ∈ p.edits, e.span.CutsOut source) :
    p.splices source =
      match collision? ((p.changes source).mergeSort Splice.le) with
      | some (a, b) => .error (.overlap a.origin b.origin)
      | none => .ok ((p.changes source).mergeSort Splice.le) := by
  have hpass : p.edits.mapM (spliceOf source) = .ok (p.edits.map Splice.ofEdit) :=
    mapM_spliceOf_eq_ok_iff.2 ⟨fun e he => Edit.isWithin_iff.2 (h e he), rfl⟩
  rw [splices, hpass]
  rfl

/-- A plan without imports is valid if all spans can be cut out and the edits fit one another. -/
theorem validate_eq_ok_iff_cutsOut (himports : p.imports = ∅) {source : String} :
    p.validate source = .ok () ↔
      (∀ e ∈ p.edits, e.span.CutsOut source.toList) ∧
        (p.edits.map Splice.ofEdit).Pairwise Splice.fits := by
  rw [validate_eq_ok_iff_fits, changes_of_imports_eq_empty himports]
  simp only [Edit.isWithin_iff]

/-! Checking a plan and applying it fail where there are no sorted changes, with the same error. -/

theorem validate_eq_error_iff {source : String} {cause : EditError} :
    p.validate source = .error cause ↔ p.splices source.toList = .error cause := by
  unfold validate
  cases p.splices source.toList <;> simp [bind, Except.bind, pure, Except.pure]

theorem apply_eq_error_iff {source : String} {cause : EditError} :
    p.apply source = .error cause ↔ p.splices source.toList = .error cause := by
  unfold apply
  cases p.splices source.toList <;> simp [bind, Except.bind, pure, Except.pure]

/-- The reasons for an error. A span is to blame only if all edits listed before can be cut out, and
an overlap only if all edits can. -/
inductive Refusal (p : FixPlan) (source : List Char) : EditError → Prop
  | outOfBounds {before after : List Edit} {e : Edit} (hedits : p.edits = before ++ e :: after)
      (hbefore : ∀ b ∈ before, b.span.CutsOut source)
      (hbounds : e.span.stop < e.span.start ∨ Text.byteSize source < e.span.stop) :
      Refusal p source (.outOfBounds e.span (Text.byteSize source))
  | insideCharacter {before after : List Edit} {e : Edit} (hedits : p.edits = before ++ e :: after)
      (hbefore : ∀ b ∈ before, b.span.CutsOut source)
      (hordered : e.span.start ≤ e.span.stop) (hinside : e.span.stop ≤ Text.byteSize source)
      (hboundary : Text.isBoundary e.span.start source = false ∨
        Text.isBoundary e.span.stop source = false) :
      Refusal p source (.insideCharacter e.span)
  | overlap {i j : Fin (p.changes source).length} (hedits : ∀ e ∈ p.edits, e.span.CutsOut source)
      (horder : comesBefore (p.changes source) i j)
      (htargets : (p.changes source)[j].target.start < (p.changes source)[i].target.stop) :
      Refusal p source (.overlap (p.changes source)[i].origin (p.changes source)[j].origin)

/-- A span that cannot be cut out is a reason for the error that it leads to. -/
theorem Refusal.of_not_cutsOut {source : List Char} {before after : List Edit} {e : Edit}
    (hedits : p.edits = before ++ e :: after) (hbefore : ∀ b ∈ before, b.span.CutsOut source)
    (he : ¬ e.span.CutsOut source) : Refusal p source (cutError source e.span) := by
  unfold cutError
  split
  · next hbounds => exact .outOfBounds hedits hbefore hbounds
  · -- the ends are in order and in the source, so one of them is no boundary
    next hbounds =>
    rw [not_or, Nat.not_lt, Nat.not_lt] at hbounds
    refine .insideCharacter hedits hbefore hbounds.1 hbounds.2 ?_
    rw [← Bool.not_eq_true, ← Bool.not_eq_true, ← Classical.not_and_iff_not_or_not]
    exact fun h => he ⟨hbounds.1, hbounds.2, h.1, h.2⟩

/-- Every error has a reason. -/
theorem refusal_of_splices {source : List Char} {cause : EditError}
    (h : p.splices source = .error cause) : Refusal p source cause := by
  cases hpass : p.edits.mapM (spliceOf source) with
  | error found =>
    -- the pass over the edits stops at the first one whose span cannot be cut out
    rcases mapM_eq_error_iff.1 hpass with ⟨before, e, after, hedits, hbefore, he⟩
    have hcut : ∀ b ∈ before, b.span.CutsOut source := by
      intro b hb
      rcases hbefore b hb with ⟨s, hs⟩
      exact Edit.isWithin_iff.1 (spliceOf_eq_ok_iff.1 hs).1
    have hnot := (spliceOf_eq_error_iff.1 he).1
    rw [splices_of_not_cutsOut hedits hcut hnot, Except.error.injEq] at h
    rw [← h]
    exact .of_not_cutsOut hedits hcut hnot
  | ok own =>
    -- all spans can be cut out, so the error is that of two changes
    have hcut : ∀ e ∈ p.edits, e.span.CutsOut source := fun e he =>
      Edit.isWithin_iff.1 ((mapM_spliceOf_eq_ok_iff.1 hpass).1 e he)
    rw [splices_of_cutsOut hcut] at h
    cases hcollision : collision? ((p.changes source).mergeSort Splice.le) with
    | none =>
      rw [hcollision] at h
      cases h
    | some pair =>
      rw [hcollision] at h
      cases h
      rcases exists_comesBefore_of_collision? hcollision with ⟨i, j, horder, htargets, hi, hj⟩
      rw [← hi, ← hj]
      exact .overlap hcut horder htargets

/-- Changes that fit are those whose targets lie one behind the other. -/
theorem pairwise_fits_iff_apart (l : List Splice) : l.Pairwise Splice.fits ↔ Apart l := by
  rw [Apart, ← pairwise_mergeSort_le_iff (r := fun a b => a.target.stop ≤ b.target.start),
    Splice.ranking_le.pairwise_mergeSort_iff]
  rfl

/-- When a plan is refused. It is valid if and only if all spans can be cut out and the targets of
the changes, the place of missing imports among them, lie one behind the other in the order of
writing. Applying it fails if and only if checking does, with the same error. The error has a
reason: it names the first span that cannot be cut out, or else two changes that are not apart. A
span that cannot be cut out is named even if there are such changes as well. -/
theorem refusals (p : FixPlan) (source : String) :
    (p.validate source = .ok () ↔
      (∀ e ∈ p.edits, e.span.CutsOut source.toList) ∧ Apart (p.changes source.toList)) ∧
    (∀ cause, p.apply source = .error cause ↔ p.validate source = .error cause) ∧
    (∀ cause, p.validate source = .error cause → Refusal p source.toList cause) ∧
    ∀ before e after, p.edits = before ++ e :: after →
      (∀ b ∈ before, b.span.CutsOut source.toList) → ¬ e.span.CutsOut source.toList →
      p.validate source = .error (cutError source.toList e.span) := by
  refine ⟨?_, ?_, ?_, ?_⟩
  · rw [validate_eq_ok_iff_fits, pairwise_fits_iff_apart]
    simp only [Edit.isWithin_iff]
  · intro cause
    rw [apply_eq_error_iff, validate_eq_error_iff]
  · intro cause h
    exact refusal_of_splices (validate_eq_error_iff.1 h)
  · intro before e after hedits hbefore he
    exact validate_eq_error_iff.2 (splices_of_not_cutsOut hedits hbefore he)

/-- A plan whose first edit covers the place of its import and whose second one starts inside a
character. -/
def crossedPlan : FixPlan where
  description := ""
  edits := [⟨.instead, ⟨5, 14⟩, "y"⟩, ⟨.before, ⟨15, 16⟩, "z"⟩]
  imports := SortedSet.empty.insert "b.C"
  safety := .safe

/-- Both are reasons to refuse it, and the span is named. -/
theorem refusals_crossedPlan :
    ¬ Apart (crossedPlan.changes "import a.A;\nf(é)".toList) ∧
      crossedPlan.validate "import a.A;\nf(é)" = .error (.insideCharacter ⟨15, 16⟩) ∧
      crossedPlan.apply "import a.A;\nf(é)" = .error (.insideCharacter ⟨15, 16⟩) ∧
      Refusal crossedPlan "import a.A;\nf(é)".toList (.insideCharacter ⟨15, 16⟩) := by
  have hall := refusals crossedPlan "import a.A;\nf(é)"
  have herror : crossedPlan.validate "import a.A;\nf(é)" = .error (.insideCharacter ⟨15, 16⟩) :=
    hall.2.2.2 [⟨.instead, ⟨5, 14⟩, "y"⟩] ⟨.before, ⟨15, 16⟩, "z"⟩ [] rfl (by decide) (by decide)
  exact ⟨by decide +kernel, herror, (hall.2.1 _).2 herror, hall.2.2.1 _ herror⟩

end FixPlan

end CallLint
