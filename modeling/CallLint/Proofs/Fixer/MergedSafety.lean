import Mathlib.Data.List.Induction
import CallLint.Proofs.Fix.Regrouping
import CallLint.Proofs.Fixer.Allowance

/-!
# How far merged plans are trusted

Plans are merged one after the other, and each one that is not safe sets the safety of the merged
plan anew. So it is the last of these that counts, not the least safe one: a risky plan makes up for
a plan in front of it that is only to be shown, and a fixer that admits risky fixes admits both of
them together.

* `FixPlan.safety_merge_concat`: what one more plan does to the safety of those before it.
* `FixPlan.safety_merge`: the merged plan is as safe as the least safe one, unless that one is
  overwritten.
* `Fixer.admits_merge_iff`: a fixer admits a merged plan if it admits all of them, or one is
  overwritten.
* `FixPlan.trust_in_merged`: both for plans as they are listed, and for all orders of them.
-/

namespace CallLint

/-! ## Degrees of safety -/

namespace Safety

/-- The least safe of some degrees of safety. -/
def leastSafe (degrees : List Safety) : Safety :=
  if .displayOnly ∈ degrees then .displayOnly else if .risky ∈ degrees then .risky else .safe

/-- The least safe degree does not depend on the order of the degrees. -/
theorem leastSafe_congr {a b : List Safety} (h : ∀ s, s ∈ a ↔ s ∈ b) :
    leastSafe a = leastSafe b := by
  simp only [leastSafe, h]

/-- One more degree counts if it is less safe than those before it. -/
theorem leastSafe_concat (degrees : List Safety) (s : Safety) :
    leastSafe (degrees ++ [s]) =
      if s = .displayOnly ∨ s = .risky ∧ .displayOnly ∉ degrees then s else leastSafe degrees := by
  unfold leastSafe
  cases s <;> grind

end Safety

namespace FixPlan

/-- The degrees of safety of some plans. -/
def degrees (plans : List FixPlan) : List Safety := plans.map (·.safety)

@[simp] theorem mem_degrees {plans : List FixPlan} {s : Safety} :
    s ∈ degrees plans ↔ ∃ p ∈ plans, p.safety = s :=
  List.mem_map

@[simp] theorem degrees_concat (plans : List FixPlan) (p : FixPlan) :
    degrees (plans ++ [p]) = degrees plans ++ [p.safety] := by
  rw [degrees, List.map_append]
  rfl

/-! ## One more plan -/

/-- A plan that is not safe sets the safety of those before it anew. -/
theorem safety_merge_concat (plans : List FixPlan) (p : FixPlan) :
    (merge (plans ++ [p])).safety =
      if p.safety = .safe then (merge plans).safety else p.safety := by
  rw [safety_merge_append, merge_singleton]

/-- Whether the degree of a plan that is only to be shown is overwritten: the last plan that is not
safe comes after it, and is risky. -/
def Overwritten (plans : List FixPlan) : Prop :=
  ∃ before p after, plans = before ++ p :: after ∧ .displayOnly ∈ degrees before ∧
    p.safety = .risky ∧ ∀ q ∈ after, q.safety = .safe

@[simp] theorem not_overwritten_nil : ¬ Overwritten [] := by
  rintro ⟨before, p, after, hsplit, -⟩
  simp at hsplit

/-- What is overwritten is there. -/
theorem Overwritten.displayOnly_mem {plans : List FixPlan} (h : Overwritten plans) :
    .displayOnly ∈ degrees plans := by
  rcases h with ⟨before, p, after, rfl, hdisplay, -⟩
  rw [degrees, List.map_append]
  exact List.mem_append_left _ hdisplay

/-- One more plan overwrites those before it if it is risky, and leaves them as they are if it is
safe. -/
theorem overwritten_concat {plans : List FixPlan} {p : FixPlan} :
    Overwritten (plans ++ [p]) ↔
      p.safety = .risky ∧ .displayOnly ∈ degrees plans ∨ p.safety = .safe ∧ Overwritten plans := by
  constructor
  · rintro ⟨before, q, after, hsplit, hdisplay, hrisky, hsafe⟩
    rcases List.eq_nil_or_concat after with rfl | ⟨front, last, rfl⟩
    · -- the risky plan is the new one
      rcases List.append_inj' hsplit rfl with ⟨rfl, hp⟩
      rw [List.singleton_inj.1 hp]
      exact .inl ⟨hrisky, hdisplay⟩
    · -- it is one of those before, and the new one is safe
      rw [List.concat_eq_append] at hsplit hsafe
      rw [← List.cons_append, ← List.append_assoc] at hsplit
      rcases List.append_inj' hsplit rfl with ⟨rfl, hp⟩
      rw [List.singleton_inj.1 hp]
      refine .inr ⟨hsafe last (by simp), before, q, front, rfl, hdisplay, hrisky, ?_⟩
      intro x hx
      exact hsafe x (List.mem_append_left _ hx)
  · rintro (⟨hrisky, hdisplay⟩ | ⟨hsafe, before, q, after, rfl, hdisplay, hrisky, hafter⟩)
    · exact ⟨plans, p, [], rfl, hdisplay, hrisky, List.forall_mem_nil _⟩
    · refine ⟨before, q, after ++ [p], by simp, hdisplay, hrisky, ?_⟩
      intro x hx
      rcases List.mem_append.1 hx with hx | hx
      · exact hafter x hx
      · rw [List.mem_singleton.1 hx]
        exact hsafe

/-! ## All plans -/

/-- A merged plan is as safe as the least safe of the plans, unless the degree of that one is
overwritten: then the merged plan is risky, although one of the plans is only to be shown. -/
theorem safety_merge (plans : List FixPlan) :
    Overwritten plans ∧ (merge plans).safety = .risky ∨
      ¬ Overwritten plans ∧ (merge plans).safety = Safety.leastSafe (degrees plans) := by
  -- from the first plan to the last, as they are merged
  induction plans using List.reverseRecOn with
  | nil => exact .inr ⟨not_overwritten_nil, rfl⟩
  | append_singleton plans p ih =>
    rw [safety_merge_concat, overwritten_concat, degrees_concat, Safety.leastSafe_concat]
    cases hp : p.safety with
    | safe => simpa using ih
    | risky =>
      by_cases hdisplay : .displayOnly ∈ degrees plans
      · exact .inl ⟨.inl ⟨rfl, hdisplay⟩, rfl⟩
      · right
        simp [hdisplay]
    | displayOnly =>
      right
      simp

theorem leastSafe_of_overwritten {plans : List FixPlan} (h : Overwritten plans) :
    Safety.leastSafe (degrees plans) = .displayOnly :=
  if_pos h.displayOnly_mem

/-- Where a degree is overwritten, the merged plan is risky. -/
theorem safety_merge_of_overwritten {plans : List FixPlan} (h : Overwritten plans) :
    (merge plans).safety = .risky := by
  rcases safety_merge plans with ⟨-, hrisky⟩ | ⟨hnot, -⟩
  · exact hrisky
  · exact absurd h hnot

/-- Otherwise, and only then, it is as safe as the least safe plan. -/
theorem safety_merge_eq_leastSafe_iff {plans : List FixPlan} :
    (merge plans).safety = Safety.leastSafe (degrees plans) ↔ ¬ Overwritten plans := by
  constructor
  · intro hleast hover
    rw [safety_merge_of_overwritten hover, leastSafe_of_overwritten hover] at hleast
    cases hleast
  · intro hover
    rcases safety_merge plans with ⟨h, -⟩ | ⟨-, hleast⟩
    · exact absurd h hover
    · exact hleast

/-- Some order overwrites a degree if and only if one plan is only to be shown and another one is
risky. -/
theorem exists_perm_overwritten_iff {plans : List FixPlan} :
    (∃ order : List FixPlan, order.Perm plans ∧ Overwritten order) ↔
      .displayOnly ∈ degrees plans ∧ .risky ∈ degrees plans := by
  constructor
  · rintro ⟨order, hperm, hover⟩
    have hdegrees : (degrees order).Perm (degrees plans) := hperm.map _
    refine ⟨hdegrees.mem_iff.1 hover.displayOnly_mem, hdegrees.mem_iff.1 ?_⟩
    rcases hover with ⟨before, p, after, rfl, -, hrisky, -⟩
    exact mem_degrees.2 ⟨p, by simp, hrisky⟩
  · rintro ⟨hdisplay, hrisky⟩
    rcases mem_degrees.1 hrisky with ⟨p, hp, hpRisky⟩
    rcases mem_degrees.1 hdisplay with ⟨q, hq, hqDisplay⟩
    -- the risky plan goes to the end, where the other one is in front of it
    rcases List.append_of_mem hp with ⟨before, after, rfl⟩
    have hother : q ∈ before ++ after := by
      rcases List.mem_append.1 hq with hq | hq
      · exact List.mem_append_left after hq
      · rcases List.mem_cons.1 hq with rfl | hq
        · rw [hpRisky] at hqDisplay
          cases hqDisplay
        · exact List.mem_append_right before hq
    have hperm : (before ++ after ++ [p]).Perm (before ++ p :: after) :=
      (List.perm_append_singleton p (before ++ after)).trans List.perm_middle.symm
    exact ⟨_, hperm, before ++ after, p, [], rfl, mem_degrees.2 ⟨q, hother, hqDisplay⟩, hpRisky,
      List.forall_mem_nil _⟩

end FixPlan

/-! ## What a fixer admits -/

namespace Fixer

/-- Whether a fixer applies plans of this degree of safety. -/
def trusts (f : Fixer) (s : Safety) : Bool := s ≠ .displayOnly && (s ≠ .risky || f.admitsRisky)

/-- A fixer looks at the safety of a plan alone. -/
theorem admits_with (f : Fixer) (fix : Fix) (p : FixPlan) :
    f.admits { fix with plan := p } = f.trusts p.safety :=
  f.admits_eq _

/-- Trust in the least safe degree is trust in all of them. -/
theorem trusts_leastSafe_iff {f : Fixer} {degrees : List Safety} :
    f.trusts (Safety.leastSafe degrees) = true ↔ ∀ s ∈ degrees, f.trusts s = true := by
  unfold Safety.leastSafe
  split
  · next hdisplay =>
    constructor
    · intro h
      cases h
    · intro h
      exact h _ hdisplay
  · next hdisplay =>
    -- all degrees are safe or risky
    have hcases : ∀ s ∈ degrees, s = .safe ∨ s = .risky := by
      intro s hs
      cases s with
      | safe => exact .inl rfl
      | risky => exact .inr rfl
      | displayOnly => exact absurd hs hdisplay
    split
    · next hrisky =>
      constructor
      · intro h s hs
        rcases hcases s hs with rfl | rfl
        · rfl
        · exact h
      · intro h
        exact h _ hrisky
    · next hrisky =>
      refine iff_of_true rfl ?_
      intro s hs
      rcases hcases s hs with rfl | rfl
      · rfl
      · exact absurd hs hrisky

/-- A fixer admits a merged plan if it admits all of the plans, and besides only where it admits
risky fixes and the degree of a plan that is only to be shown is overwritten. -/
theorem admits_merge_iff (f : Fixer) (fix : Fix) (plans : List FixPlan) :
    f.admits { fix with plan := FixPlan.merge plans } = true ↔
      (∀ p ∈ plans, f.admits { fix with plan := p } = true) ∨
        FixPlan.Overwritten plans ∧ f.admitsRisky = true := by
  -- to admit all of the plans is to trust the least safe degree
  have hall : (∀ p ∈ plans, f.admits { fix with plan := p } = true) ↔
      f.trusts (Safety.leastSafe (FixPlan.degrees plans)) = true := by
    rw [trusts_leastSafe_iff, FixPlan.degrees, List.forall_mem_map]
    simp only [admits_with]
  rw [hall, admits_with]
  rcases FixPlan.safety_merge plans with ⟨hover, hrisky⟩ | ⟨hover, hleast⟩
  · rw [hrisky, FixPlan.leastSafe_of_overwritten hover]
    simp [trusts, hover]
  · rw [hleast]
    simp [hover]

end Fixer

namespace FixPlan

/-- Whether a merged plan is as safe as the least safe plan, whatever the plans and their order. -/
def MergesToLeastSafe : Prop := ∀ plans, (merge plans).safety = Safety.leastSafe (degrees plans)

/-- Whether a plan that a fixer refuses is part of no merged plan that it admits. -/
def KeepsRefused : Prop :=
  ∀ (f : Fixer) (fix : Fix) (plans : List FixPlan),
    (∃ p ∈ plans, f.admits { fix with plan := p } = false) →
    f.admits { fix with plan := merge plans } = false

/-- How far a merged plan is trusted. It is as safe as the least safe of the plans if and only if no
degree is overwritten, and otherwise it is risky though one of the plans is only to be shown. All
orders of the plans keep the least degree if and only if no plan is only to be shown or none is
risky. A fixer admits the merged plan exactly if it admits every single one of the plans, or if a
degree is overwritten and it admits risky fixes. -/
theorem trust_in_merged (plans : List FixPlan) :
    ((merge plans).safety = Safety.leastSafe (degrees plans) ↔ ¬ Overwritten plans) ∧
      ((merge plans).safety = .risky ∧ Safety.leastSafe (degrees plans) = .displayOnly ↔
        Overwritten plans) ∧
      ((∀ order : List FixPlan, order.Perm plans →
          (merge order).safety = Safety.leastSafe (degrees plans)) ↔
        .displayOnly ∉ degrees plans ∨ .risky ∉ degrees plans) ∧
      ∀ (f : Fixer) (fix : Fix), f.admits { fix with plan := merge plans } = true ↔
        (∀ p ∈ plans, f.admits { fix with plan := p } = true) ∨
          Overwritten plans ∧ f.admitsRisky = true := by
  refine ⟨safety_merge_eq_leastSafe_iff, ?_, ?_, fun f fix => f.admits_merge_iff fix plans⟩
  · constructor
    · rintro ⟨hrisky, hdisplay⟩
      by_contra hover
      rw [safety_merge_eq_leastSafe_iff.2 hover, hdisplay] at hrisky
      cases hrisky
    · intro hover
      exact ⟨safety_merge_of_overwritten hover, leastSafe_of_overwritten hover⟩
  · -- an order keeps the least degree unless it overwrites one
    rw [← not_and_or, ← exists_perm_overwritten_iff, not_exists]
    refine forall_congr' fun order => ?_
    rw [not_and]
    refine imp_congr_right fun hperm => ?_
    have hdegrees : Safety.leastSafe (degrees order) = Safety.leastSafe (degrees plans) :=
      Safety.leastSafe_congr fun s => (hperm.map (·.safety)).mem_iff
    rw [← hdegrees, safety_merge_eq_leastSafe_iff]

/-- A plan that is only to be shown, and a risky one after it. -/
def shownThenRisky : List FixPlan :=
  [{ replacing ⟨0, 1⟩ "a" with safety := .displayOnly },
    { replacing ⟨2, 3⟩ "c" with safety := .risky }]

/-- Merged with a risky plan after it, a plan that is only to be shown becomes part of a plan that
is applied. -/
theorem not_mergesToLeastSafe_shownThenRisky : ¬ MergesToLeastSafe ∧ ¬ KeepsRefused := by
  constructor
  · intro h
    have hdegree : Safety.risky = Safety.displayOnly := h shownThenRisky
    cases hdegree
  · intro h
    let fix : Fix := ⟨⟨"A.java"⟩, default, empty, "r"⟩
    have hrefused : true = false := h (Fixer.empty.withMode .all) fix shownThenRisky
      ⟨{ replacing ⟨0, 1⟩ "a" with safety := .displayOnly }, List.mem_cons_self, rfl⟩
    cases hrefused

end FixPlan

end CallLint
