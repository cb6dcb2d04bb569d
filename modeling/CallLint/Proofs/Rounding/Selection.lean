import CallLint.Proofs.Rounding.Findings

/-!
# Which roundings are removed

Two calls can be removed together exactly if their spans do not overlap. So the fixes of a unit that
are accepted are those of the roundings that a simple scan keeps: one that overlaps none kept
before.

* `RoundRule.keep`: the scan.
* `RoundRule.agrees_plan_iff`: when two removals go together.
* `RoundRule.accept_map_fix`: the pass over the fixes accepts what the scan keeps.
-/

namespace CallLint.RoundRule

/-- Goes through roundings with some that are kept already, and keeps each one whose span does not
overlap the span of one kept before. -/
def keep (kept : List Rounding) : List Rounding → List Rounding
  | [] => kept
  | r :: rest =>
    if kept.any (·.span.overlaps r.span) then keep kept rest else keep (kept ++ [r]) rest

/-! ## Two removals -/

variable {s : FixSettings} {source : String}

/-- Removals need no imports. -/
theorem not_needsImports_plan (source : List Char) (s : FixSettings) (r : Rounding) :
    ¬ (r.plan s).needsImports source := by
  rintro ⟨name, hname, -⟩
  rw [r.imports_plan] at hname
  cases hname

/-- Two removals go together exactly if the spans of their calls do not overlap. -/
theorem agrees_plan_iff {a b : Rounding} (ha : a.span.isEmpty = false)
    (hb : b.span.isEmpty = false) :
    FixPlan.agrees source.toList (a.plan s) (b.plan s) ↔ a.span.overlaps b.span = false := by
  constructor
  · intro h
    exact FixPlan.overlaps_eq_false_of_fits
      (h.edits _ (a.instead_mem_plan s) _ (b.instead_mem_plan s))
  · intro h
    -- all edits of a removal share the span of the call
    refine ⟨?_, fun hneeds => absurd hneeds (not_needsImports_plan _ s a),
      fun hneeds => absurd hneeds (not_needsImports_plan _ s b)⟩
    intro x hx y hy
    apply FixPlan.fits_of_overlaps_eq_false <;>
      simpa only [Rounding.span_of_mem_plan hx, Rounding.span_of_mem_plan hy]

/-! ## The scan -/

/-- Whether the removal of a call can be applied by itself, and has something to remove. -/
structure Rounding.Removable (s : FixSettings) (source : String) (r : Rounding) : Prop where
  valid : (r.plan s).validate source = .ok ()
  nonempty : r.span.isEmpty = false

variable {u : SourceUnit} {kept rest : List Rounding}

/-- One more removal goes together with some exactly if it overlaps none of them. -/
theorem together_append_iff (hkept : ∀ k ∈ kept, k.Removable s source) {r : Rounding}
    (hr : r.Removable s source) (h : Fixer.together source (kept.map (Rounding.fix s u))) :
    Fixer.together source (kept.map (Rounding.fix s u) ++ [r.fix s u]) ↔
      kept.any (·.span.overlaps r.span) = false := by
  rw [List.any_eq_false]
  constructor
  · intro hall k hk
    rw [Fixer.together, FixPlan.validate_merge_eq_ok_iff, List.map_append,
      List.pairwise_append] at hall
    have hagrees := hall.2.2.2 (k.plan s)
      (by rw [List.map_map]; exact List.mem_map.2 ⟨k, hk, rfl⟩) (r.plan s) List.mem_cons_self
    rw [(agrees_plan_iff (hkept k hk).nonempty hr.nonempty).1 hagrees]
    exact Bool.false_ne_true
  · intro hfree
    apply Fixer.together_append_singleton h hr.valid
    intro g hg
    rcases List.mem_map.1 hg with ⟨k, hk, rfl⟩
    apply (agrees_plan_iff (hkept k hk).nonempty hr.nonempty).2
    simpa using hfree k hk

/-- A pass over the fixes of roundings accepts those of the roundings that the scan keeps. -/
theorem accept_map_fix (hkept : ∀ k ∈ kept, k.Removable s source)
    (hrest : ∀ r ∈ rest, r.Removable s source)
    (h : Fixer.together source (kept.map (Rounding.fix s u))) :
    (Fixer.accept source (kept.map (Rounding.fix s u)) (rest.map (Rounding.fix s u))).1 =
      (keep kept rest).map (Rounding.fix s u) := by
  -- what is kept so far goes together, which decides whether the next one joins
  induction rest generalizing kept with
  | nil => rfl
  | cons r rest ih =>
    rcases List.forall_mem_cons.1 hrest with ⟨hr, hrest⟩
    have hjoins := together_append_iff (u := u) hkept hr h
    rw [List.map_cons, keep]
    obtain hr' | ⟨cause, hr'⟩ :=
      Fixer.together_or_error source (kept.map (Rounding.fix s u) ++ [r.fix s u])
    · -- it joins what is kept
      rw [if_neg (by simp [hjoins.1 hr']), Fixer.accept_cons_of_together _ hr']
      have hmore : ∀ k ∈ kept ++ [r], k.Removable s source := by
        intro k hk
        rcases List.mem_append.1 hk with hk | hk
        · exact hkept k hk
        · rw [List.mem_singleton.1 hk]
          exact hr
      have hmap :
          kept.map (Rounding.fix s u) ++ [r.fix s u] = (kept ++ [r]).map (Rounding.fix s u) := by
        rw [List.map_append, List.map_singleton]
      rw [hmap] at hr' ⊢
      exact ih hmore hrest hr'
    · -- it is left out, as the scan leaves it out
      have hoverlap : kept.any (·.span.overlaps r.span) = true := by
        rw [← Bool.not_eq_false, ← hjoins, Fixer.together, hr']
        intro hok
        cases hok
      rw [if_pos hoverlap, Fixer.accept_cons_of_error _ hr']
      exact ih hkept hrest h

/-- The scan adds to what is kept, in the order of the roundings. -/
theorem exists_keep_eq (kept rest : List Rounding) :
    ∃ more, keep kept rest = kept ++ more ∧ more.Sublist rest := by
  induction rest generalizing kept with
  | nil => exact ⟨[], by rw [keep, List.append_nil], List.Sublist.refl []⟩
  | cons r rest ih =>
    rw [keep]
    split
    · rcases ih kept with ⟨more, hkeep, hsub⟩
      exact ⟨more, hkeep, hsub.cons r⟩
    · rcases ih (kept ++ [r]) with ⟨more, hkeep, hsub⟩
      exact ⟨r :: more, by rw [hkeep, List.append_assoc, List.singleton_append], hsub.cons_cons r⟩

/-- What the scan keeps are some of the roundings, in their order. -/
theorem keep_sublist (rest : List Rounding) : (keep [] rest).Sublist rest := by
  rcases exists_keep_eq [] rest with ⟨more, hkeep, hsub⟩
  rw [hkeep]
  exact hsub

/-- No two of the calls that are kept overlap. -/
theorem pairwise_keep (hkept : kept.Pairwise fun a b => a.span.overlaps b.span = false) :
    (keep kept rest).Pairwise fun a b => a.span.overlaps b.span = false := by
  -- what is kept is free of overlaps, and stays so with each call that joins
  induction rest generalizing kept with
  | nil => exact hkept
  | cons r rest ih =>
    rw [keep]
    split
    · exact ih hkept
    · next hfree =>
      apply ih
      rw [List.pairwise_append]
      refine ⟨hkept, List.pairwise_singleton _ _, fun k hk x hx => ?_⟩
      rw [List.mem_singleton.1 hx]
      rw [Bool.not_eq_true, List.any_eq_false] at hfree
      simpa using hfree k hk

end CallLint.RoundRule
