import CallLint.Proofs.Fix.Refusing

/-!
# Replacements and overlapping spans

Two spans overlap or not, whichever is named first. A plan that only replaces spans should be
refused for overlapping spans and for nothing else, however its edits are listed. This holds unless
an empty span is at the start of one with bytes. Then they do not overlap, but go together only if
the empty one is listed first.

* `Edit.Fronts`: an empty span at the start of another one.
* `fits_iff_of_instead`: when two replacements go together.
* `overlap_decides`: what decides about all replacements, and what about their reorderings.
* `not_decidedByOverlap_pointLast`: a plan that is refused without an overlap.
-/

namespace CallLint

/-- Whether an edit is anchored to an empty span at the start of the span of another one, which has
bytes. -/
def Edit.Fronts (a b : Edit) : Prop :=
  a.span.isEmpty = true ∧ b.span.isEmpty = false ∧ a.span.start = b.span.start

instance (a b : Edit) : Decidable (a.Fronts b) := inferInstanceAs (Decidable (_ ∧ _))

/-- Whether the spans of two edits have no byte in common. -/
def Edit.Clear (a b : Edit) : Prop := a.span.overlaps b.span = false

instance (a b : Edit) : Decidable (a.Clear b) := inferInstanceAs (Decidable (_ = _))

@[symm] theorem Edit.Clear.symm {a b : Edit} (h : a.Clear b) : b.Clear a := by
  rw [Clear, Span.overlaps_comm]
  exact h

namespace FixPlan

/-- Whether a plan replaces spans of a source and does nothing else. -/
structure OnlyReplaces (source : List Char) (p : FixPlan) : Prop where
  places : ∀ e ∈ p.edits, e.place = .instead
  spans : ∀ e ∈ p.edits, e.span.CutsOut source
  imports : p.imports = ∅

/-- Whether a plan is valid for a source if and only if no two of its spans overlap. -/
def DecidedByOverlap (source : String) (p : FixPlan) : Prop :=
  p.validate source = .ok () ↔ p.edits.Pairwise Edit.Clear

variable {source : String} {p : FixPlan}

/-- Listing the edits in another order changes nothing of that. -/
theorem OnlyReplaces.perm {source : List Char} (hp : p.OnlyReplaces source) {es : List Edit}
    (hes : es.Perm p.edits) : OnlyReplaces source { p with edits := es } where
  places e he := hp.places e (hes.mem_iff.1 he)
  spans e he := hp.spans e (hes.mem_iff.1 he)
  imports := hp.imports

/-- Two replacements, listed in this order, go together if their spans have no byte in common and
the second one is not an empty span at the start of the first one. -/
theorem fits_iff_of_instead {a b : Edit} (ha : a.place = .instead) (hb : b.place = .instead)
    (hordered : a.span.start ≤ a.span.stop) (hordered' : b.span.start ≤ b.span.stop) :
    (Splice.ofEdit a).fits (.ofEdit b) ↔ a.Clear b ∧ ¬ b.Fronts a := by
  rw [Edit.Clear, Span.overlaps_eq_false_iff]
  -- all three are about the ends of the spans
  simp only [Splice.fits, Splice.le_iff, Splice.ofEdit, Edit.target, Edit.rank, ha, hb, Edit.Fronts,
    Span.isEmpty, decide_eq_true_eq, decide_eq_false_iff_not]
  split <;> omega

/-- A list of replacements is valid if its spans have no byte in common and no empty one is listed
after one with bytes that starts there. -/
theorem validate_eq_ok_iff_clear (hp : p.OnlyReplaces source.toList) :
    p.validate source = .ok () ↔
      p.edits.Pairwise Edit.Clear ∧ p.edits.Pairwise fun a b => ¬ b.Fronts a := by
  have hfits : (p.edits.map Splice.ofEdit).Pairwise Splice.fits ↔
      p.edits.Pairwise fun a b => a.Clear b ∧ ¬ b.Fronts a := by
    rw [List.pairwise_map]
    apply List.Pairwise.iff_of_mem
    intro a b ha hb
    exact fits_iff_of_instead (hp.places a ha) (hp.places b hb) (hp.spans a ha).ordered
      (hp.spans b hb).ordered
  rw [validate_eq_ok_iff_cutsOut hp.imports, hfits, List.pairwise_and_iff]
  exact ⟨fun h => h.2, fun h => ⟨hp.spans, h⟩⟩

/-- Empty spans listed first never come after one with bytes. -/
theorem pairwise_not_fronts_emptyFirst (es : List Edit) :
    (es.filter (·.span.isEmpty) ++ es.filter (!·.span.isEmpty)).Pairwise fun a b =>
      ¬ b.Fronts a := by
  -- an empty span has no other one in front of it
  have hempty : ∀ a ∈ es.filter (·.span.isEmpty), ∀ b : Edit, ¬ b.Fronts a := by
    rintro a ha b ⟨-, hbytes, -⟩
    rw [List.mem_filter] at ha
    rw [ha.2] at hbytes
    cases hbytes
  rw [List.pairwise_append]
  refine ⟨?_, ?_, fun a ha b _ => hempty a ha b⟩
  · exact List.pairwise_of_forall_mem_list fun a ha b _ => hempty a ha b
  · -- none of these is empty
    apply List.pairwise_of_forall_mem_list
    rintro a - b hb ⟨hpoint, -, -⟩
    rw [List.mem_filter, hpoint] at hb
    cases hb.2

/-- What decides about a plan that replaces spans and does nothing else. It is valid if and only if
no two spans overlap and no empty span is listed after one with bytes that starts there. Without an
empty span at the start of another one, overlaps alone decide, and every reordering gets the same
verdict. In any case, some reordering is valid if and only if no two spans overlap. -/
theorem overlap_decides (source : String) (p : FixPlan) (hp : p.OnlyReplaces source.toList) :
    (p.validate source = .ok () ↔
      p.edits.Pairwise Edit.Clear ∧ p.edits.Pairwise fun a b => ¬ b.Fronts a) ∧
    ((∀ a ∈ p.edits, ∀ b ∈ p.edits, ¬ b.Fronts a) →
      p.DecidedByOverlap source ∧
        ∀ es, es.Perm p.edits →
          (FixPlan.validate { p with edits := es } source = .ok () ↔ p.validate source = .ok ())) ∧
    ((∃ es, es.Perm p.edits ∧ FixPlan.validate { p with edits := es } source = .ok ()) ↔
      p.edits.Pairwise Edit.Clear) := by
  have hreordered : ∀ es, es.Perm p.edits →
      (FixPlan.validate { p with edits := es } source = .ok () ↔
        p.edits.Pairwise Edit.Clear ∧ es.Pairwise fun a b => ¬ b.Fronts a) := by
    intro es hes
    rw [validate_eq_ok_iff_clear (hp.perm hes), hes.pairwise_iff Edit.Clear.symm]
  refine ⟨validate_eq_ok_iff_clear hp, ?_, ?_⟩
  · -- without such spans, the order of the edits has no say in it
    intro hfree
    have hverdict : ∀ es, es.Perm p.edits →
        (FixPlan.validate { p with edits := es } source = .ok () ↔
          p.edits.Pairwise Edit.Clear) := by
      intro es hes
      rw [hreordered es hes, and_iff_left]
      apply List.pairwise_of_forall_mem_list
      intro a ha b hb
      exact hfree a (hes.mem_iff.1 ha) b (hes.mem_iff.1 hb)
    have hown := hverdict p.edits (.refl _)
    exact ⟨hown, fun es hes => (hverdict es hes).trans hown.symm⟩
  · constructor
    · rintro ⟨es, hes, hvalid⟩
      exact ((hreordered es hes).1 hvalid).1
    · -- the empty spans may be listed first
      intro hclear
      have hperm := List.filter_append_perm (·.span.isEmpty) p.edits
      exact ⟨_, hperm, (hreordered _ hperm).2 ⟨hclear, pairwise_not_fronts_emptyFirst p.edits⟩⟩

/-- Two replacements of spans that touch. -/
def touchingPlan : FixPlan :=
  { empty with edits := [⟨.instead, ⟨1, 3⟩, "x"⟩, ⟨.instead, ⟨0, 1⟩, "y"⟩] }

/-- Touching is not overlapping, in either order. -/
theorem overlap_decides_touchingPlan :
    touchingPlan.OnlyReplaces "aé".toList ∧ touchingPlan.validate "aé" = .ok () ∧
      FixPlan.validate { touchingPlan with edits := touchingPlan.edits.reverse } "aé" = .ok () := by
  have hreplaces : touchingPlan.OnlyReplaces "aé".toList := ⟨by decide, by decide, rfl⟩
  have hall := (overlap_decides "aé" touchingPlan hreplaces).2.1 (by decide)
  have hvalid : touchingPlan.validate "aé" = .ok () := hall.1.2 (by decide)
  exact ⟨hreplaces, hvalid, (hall.2 _ (List.reverse_perm _)).2 hvalid⟩

/-- A replacement of one byte, and then one of nothing in front of it. -/
def pointLastPlan : FixPlan :=
  { empty with edits := [⟨.instead, ⟨0, 1⟩, "x"⟩, ⟨.instead, ⟨0, 0⟩, "x"⟩] }

/-- They do not overlap but are refused, and the same edits are valid in the other order. -/
theorem not_decidedByOverlap_pointLast :
    pointLastPlan.OnlyReplaces "ab".toList ∧ ¬ pointLastPlan.DecidedByOverlap "ab" ∧
      FixPlan.validate { pointLastPlan with edits := pointLastPlan.edits.reverse } "ab" =
        .ok () := by
  have hreplaces : pointLastPlan.OnlyReplaces "ab".toList := ⟨by decide, by decide, rfl⟩
  refine ⟨hreplaces, ?_, ?_⟩
  · intro hdecided
    have hvalid := hdecided.2 (by decide)
    exact absurd ((validate_eq_ok_iff_clear hreplaces).1 hvalid).2 (by decide)
  · rw [validate_eq_ok_iff_clear (hreplaces.perm (List.reverse_perm _))]
    decide

end FixPlan

end CallLint
