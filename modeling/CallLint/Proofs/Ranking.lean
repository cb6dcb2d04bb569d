/-!
# Rankings

A ranking is a comparison that is transitive and total; it may call different things equal. Sorting
by a ranking is stable, so it commutes with every selection that respects the ranking.

* `Ranking.mergeSort_append`: lists that come one after the other can be sorted apart.
* `Ranking.mergeSort_eq_of_perm`: a strict order is found again, whatever the order before.
* `Ranking.filterMap_mergeSort`: selecting and sorting can change places.
* `Ranking.filter_tied_mergeSort`: things that are ranked alike stay in their order.
* `Ranking.pairwise_mergeSort_iff`: what holds of all pairs of the sorted list, said of the unsorted
  one.
* `Ranking.isStableSort_mergeSort`: what sorting comes to, without saying how it is done.
-/

namespace CallLint

/-- A comparison that is transitive and total. -/
structure Ranking {α : Type} (le : α → α → Bool) : Prop where
  trans : ∀ a b c, le a b = true → le b c = true → le a c = true
  total : ∀ a b, (le a b || le b a) = true

/-- Whether a list is another one put in order: it has the same members, they are ranked, and those
that are ranked alike stand as they did before. -/
structure IsStableSort {α : Type} (le : α → α → Bool) (l sorted : List α) : Prop where
  perm : sorted.Perm l
  ranked : sorted.Pairwise fun a b => le a b = true
  stable : ∀ a, sorted.filter (fun b => le a b && le b a) = l.filter fun b => le a b && le b a

namespace Ranking

variable {α β : Type} {le : α → α → Bool} {le' : β → β → Bool}

/-- Every lawful comparison is a ranking. -/
theorem ofCmp (cmp : α → α → Ordering) [Std.TransCmp cmp] : Ranking fun a b => (cmp a b).isLE where
  trans _ _ _ := Std.TransCmp.isLE_trans
  total a b := by
    have hswap : cmp b a = (cmp a b).swap := Std.OrientedCmp.eq_swap
    rw [hswap]
    cases cmp a b <;> rfl

theorem refl (h : Ranking le) (a : α) : le a a = true := by simpa using h.total a a

theorem pairwise_mergeSort (h : Ranking le) (l : List α) :
    (l.mergeSort le).Pairwise fun a b => le a b = true :=
  List.pairwise_mergeSort h.trans h.total l

/-- A list falls in only one way into a part where a test holds and a part where it does not. -/
theorem append_inj_of_test {p : α → Bool} {a b c d : List α} (h : a ++ b = c ++ d)
    (ha : ∀ x ∈ a, p x = true) (hb : ∀ x ∈ b, p x = false) (hc : ∀ x ∈ c, p x = true)
    (hd : ∀ x ∈ d, p x = false) : a = c ∧ b = d := by
  -- the test selects the first part on both sides
  have hkeep : a = c := by
    have hp := congrArg (List.filter p) h
    rw [List.filter_append, List.filter_append, List.filter_eq_self.2 ha, List.filter_eq_self.2 hc,
      List.filter_eq_nil_iff.2 (by simpa using hb),
      List.filter_eq_nil_iff.2 (by simpa using hd)] at hp
    simpa using hp
  subst hkeep
  exact ⟨rfl, List.append_cancel_left h⟩

/-- Sorting one thing more puts it in front of the first one that it does not come after. -/
theorem mergeSort_cons (h : Ranking le) (a : α) (l : List α) :
    ∃ l₁ l₂, (a :: l).mergeSort le = l₁ ++ a :: l₂ ∧ l.mergeSort le = l₁ ++ l₂ ∧
      (∀ x ∈ l₁, le a x = false) ∧ ∀ x ∈ l₂, le a x = true := by
  rcases List.mergeSort_cons h.trans h.total a l with ⟨l₁, l₂, hcons, hl, hbefore⟩
  refine ⟨l₁, l₂, hcons, hl, by simpa using hbefore, ?_⟩
  have hsorted := h.pairwise_mergeSort (a :: l)
  rw [hcons] at hsorted
  exact (List.pairwise_cons.1 (List.pairwise_append.1 hsorted).2.1).1

/-- Two lists of which the first one comes before the second one can be sorted apart. -/
theorem mergeSort_append (h : Ranking le) {l m : List α} (hlm : ∀ a ∈ l, ∀ b ∈ m, le a b = true) :
    (l ++ m).mergeSort le = l.mergeSort le ++ m.mergeSort le := by
  induction l with
  | nil => simp
  | cons a l ih =>
    rw [List.forall_mem_cons] at hlm
    have ih := ih hlm.2
    rcases h.mergeSort_cons a l with ⟨l₁, l₂, hcons, hl, hbefore, hafter⟩
    rcases h.mergeSort_cons a (l ++ m) with ⟨m₁, m₂, hcons', hm, hbefore', hafter'⟩
    -- both sides cut the same list at the same place: where `a` starts to come first
    rw [hm, hl, List.append_assoc] at ih
    have hcut := append_inj_of_test (p := fun x => !le a x) ih (fun x hx => by simp [hbefore' x hx])
      (fun x hx => by simp [hafter' x hx]) (fun x hx => by simp [hbefore x hx])
      (fun x hx => by
        rcases List.mem_append.1 hx with hx | hx
        · simp [hafter x hx]
        · simp [hlm.1 x (List.mem_mergeSort.1 hx)])
    rw [List.cons_append, hcons', hcons, hcut.1, hcut.2]
    simp

/-- A list in strict order is what sorting makes of every reordering of it. -/
theorem mergeSort_eq_of_perm (h : Ranking le) {l sorted : List α} (hperm : l.Perm sorted)
    (hsorted : sorted.Pairwise fun a b => le a b = true ∧ le b a = false) :
    l.mergeSort le = sorted := by
  -- no two members are ranked alike, so there is only one order
  have hdistinct : sorted.Pairwise fun a b => le a b = true → le b a = true → a = b := by
    refine hsorted.imp fun {a b} hab _ hba => ?_
    rw [hab.2] at hba
    cases hba
  have hapart := hdistinct.forall_of_forall_of_flip (fun _ _ _ _ => rfl)
    (hdistinct.imp fun hab hba hab' => (hab hab' hba).symm)
  have hall : (l.mergeSort le).Perm sorted := (List.mergeSort_perm l le).trans hperm
  refine List.Perm.eq_of_pairwise ?_ (h.pairwise_mergeSort l) (hsorted.imp And.left) hall
  intro a b ha hb
  exact hapart (hall.mem_iff.1 ha) hb

/-- A selection that respects two rankings can be made before or after sorting. -/
theorem filterMap_mergeSort (h : Ranking le) (h' : Ranking le') {g : α → Option β} {l : List α}
    (hg : ∀ a ∈ l, ∀ b ∈ l, ∀ x y, g a = some x → g b = some y → le a b = le' x y) :
    (l.mergeSort le).filterMap g = (l.filterMap g).mergeSort le' := by
  induction l with
  | nil => simp
  | cons a l ih =>
    rcases h.mergeSort_cons a l with ⟨l₁, l₂, hcons, hl, hbefore, hafter⟩
    have hmem : ∀ b, b ∈ l₁ ++ l₂ → b ∈ a :: l := by
      intro b hb
      rw [← hl, List.mem_mergeSort] at hb
      exact List.mem_cons_of_mem a hb
    have ih := ih fun b hb c hc =>
      hg b (List.mem_cons_of_mem a hb) c (List.mem_cons_of_mem a hc)
    rw [hcons]
    rw [hl] at ih
    cases hga : g a with
    | none =>
      -- the first member is not selected, wherever it stands
      simp only [List.filterMap_append, List.filterMap_cons, hga] at ih ⊢
      exact ih
    | some x =>
      rcases h'.mergeSort_cons x (l.filterMap g) with ⟨m₁, m₂, hcons', hm, hbefore', hafter'⟩
      simp only [List.filterMap_append, List.filterMap_cons, hga] at ih ⊢
      rw [hcons']
      rw [hm] at ih
      -- both sides cut the same list at the same place: where `x` starts to come first
      have hcut := append_inj_of_test (p := fun y => !le' x y) ih
        (fun y hy => by
          rcases List.mem_filterMap.1 hy with ⟨b, hb, hgb⟩
          have hin := hmem b (List.mem_append_left l₂ hb)
          simp [← hg a List.mem_cons_self b hin x y hga hgb, hbefore b hb])
        (fun y hy => by
          rcases List.mem_filterMap.1 hy with ⟨b, hb, hgb⟩
          have hin := hmem b (List.mem_append_right l₁ hb)
          simp [← hg a List.mem_cons_self b hin x y hga hgb, hafter b hb])
        (fun y hy => by simp [hbefore' y hy])
        (fun y hy => by simp [hafter' y hy])
      rw [hcut.1, hcut.2]

/-- Filtering is such a selection. -/
theorem filter_mergeSort (h : Ranking le) (p : α → Bool) (l : List α) :
    (l.mergeSort le).filter p = (l.filter p).mergeSort le := by
  have hselect : ∀ l : List α, l.filter p = l.filterMap (Option.guard p) := by
    intro l
    rw [List.filterMap_eq_filter]
  rw [hselect, hselect]
  apply h.filterMap_mergeSort h
  intro a _ b _ x y ha hb
  rw [(Option.guard_eq_some_iff.1 ha).1, (Option.guard_eq_some_iff.1 hb).1]

/-- Things that are ranked alike stay in their order. -/
theorem filter_tied_mergeSort (h : Ranking le) {p : α → Bool} {l : List α}
    (hp : ∀ a ∈ l, ∀ b ∈ l, p a = true → p b = true → le a b = true) :
    (l.mergeSort le).filter p = l.filter p := by
  rw [h.filter_mergeSort]
  apply List.mergeSort_of_pairwise
  apply List.pairwise_of_forall_mem_list
  intro a ha b hb
  rw [List.mem_filter] at ha hb
  exact hp a ha.1 b hb.1 ha.2 hb.2

/-- Sorting by a ranking is stable. -/
theorem isStableSort_mergeSort (h : Ranking le) (l : List α) :
    IsStableSort le l (l.mergeSort le) where
  perm := List.mergeSort_perm l le
  ranked := h.pairwise_mergeSort l
  stable a := by
    apply h.filter_tied_mergeSort
    intro b _ c _ hb hc
    rw [Bool.and_eq_true] at hb hc
    exact h.trans b a c hb.2 hc.1

/-- A relation holds along the sorted list exactly when it holds of any two members of the unsorted
one, taken in the order that sorting gives them. -/
theorem pairwise_mergeSort_iff (h : Ranking le) {r : α → α → Prop} (l : List α) :
    (l.mergeSort le).Pairwise r ↔
      l.Pairwise fun a b => if le a b = true then r a b else r b a := by
  induction l with
  | nil => simp
  | cons a l ih =>
    rcases h.mergeSort_cons a l with ⟨l₁, l₂, hcons, hl, hbefore, hafter⟩
    have hmem : ∀ x, x ∈ l ↔ x ∈ l₁ ∨ x ∈ l₂ := by
      intro x
      rw [← (List.mergeSort_perm l le).mem_iff, hl, List.mem_append]
    rw [hcons, List.pairwise_cons, ← ih, hl, List.pairwise_append, List.pairwise_cons,
      List.pairwise_append]
    -- `a` stands between the two parts of the sorted rest
    constructor
    · rintro ⟨h₁, ⟨ha, h₂⟩, hcross⟩
      refine ⟨?_, h₁, h₂, fun x hx y hy => hcross x hx y (List.mem_cons_of_mem a hy)⟩
      intro x hx
      rcases (hmem x).1 hx with hx | hx
      · rw [if_neg (by simp [hbefore x hx])]
        exact hcross x hx a List.mem_cons_self
      · rw [if_pos (hafter x hx)]
        exact ha x hx
    · rintro ⟨ha, h₁, h₂, hcross⟩
      have hin : ∀ x ∈ l₁, r x a := by
        intro x hx
        have hxa := ha x ((hmem x).2 (.inl hx))
        rwa [if_neg (by simp [hbefore x hx])] at hxa
      have hout : ∀ x ∈ l₂, r a x := by
        intro x hx
        have hax := ha x ((hmem x).2 (.inr hx))
        rwa [if_pos (hafter x hx)] at hax
      refine ⟨h₁, ⟨hout, h₂⟩, fun x hx y hy => ?_⟩
      rcases List.mem_cons.1 hy with rfl | hy
      · exact hin x hx
      · exact hcross x hx y hy

end Ranking

end CallLint
