import Mathlib.Data.List.SplitBy
import CallLint.Proofs.Ranking
import CallLint.Proofs.Sorted.Map

/-!
# Grouping by a key

Things are grouped by a key as they come: each one is put behind those of its key in a sorted map.
Read group by group, they are sorted by their keys, and those of one key are in the order in which
they came.

* `SortedMap.gather`, `SortedMap.groups`: one thing more, and all things of a list.
* `SortedMap.Grouped`: the members of a group are alike in key, and the first of them has the key
  that the group has.
* `SortedMap.get?_foldl_gather`, `SortedMap.members_foldl_gather_perm`: what is looked up
  afterwards, and that nothing is lost or doubled.
* `SortedMap.isStableSort_groups`, `SortedMap.Grouped.splitBy_members`: the groups are the runs of
  the sorted list.
-/

namespace CallLint.SortedMap

variable {α κ : Type} [Ord κ]

/-- Whether a member has a key. -/
def hasKey (key : α → κ) (k : κ) (a : α) : Bool := compare (key a) k == .eq

@[simp] theorem hasKey_iff {key : α → κ} {k : κ} {a : α} :
    hasKey key k a = true ↔ compare (key a) k = .eq := beq_iff_eq

/-- The members of all groups, one group after the other. -/
def members (m : SortedMap κ (List α)) : List α := m.toList.flatMap (·.2)

/-- Whether members are grouped by a key. Keys that compare as equal may differ, so a group goes by
that of its first member. -/
structure Grouped (key : α → κ) (m : SortedMap κ (List α)) : Prop where
  headed : ∀ e ∈ m.toList, ∃ first others, e.2 = first :: others ∧ key first = e.1
  alike : ∀ e ∈ m.toList, ∀ a ∈ e.2, compare (key a) e.1 = .eq

variable {key : α → κ} {m : SortedMap κ (List α)}

/-- No group is empty. -/
theorem Grouped.ne_nil (h : Grouped key m) {e : κ × List α} (he : e ∈ m.toList) : e.2 ≠ [] := by
  rcases h.headed e he with ⟨_, _, hgroup, -⟩
  rw [hgroup]
  exact List.cons_ne_nil _ _

variable [Std.TransOrd κ]

/-- One member more, behind the others of its key. -/
def gather (key : α → κ) (m : SortedMap κ (List α)) (a : α) : SortedMap κ (List α) :=
  m.alter (key a) fun group => group.getD [] ++ [a]

/-- The members of a list in groups. -/
def groups (key : α → κ) (l : List α) : SortedMap κ (List α) := l.foldl (gather key) ∅

/-! ## Groups stay groups -/

/-- A group is as it was, or is that of the new member alone, or has the new member at its end. -/
theorem Grouped.gather (h : Grouped key m) (a : α) : Grouped key (m.gather key a) where
  headed e he := by
    rcases mem_toList_alter he with he | rfl | ⟨old, hold, hkey, rfl⟩
    · exact h.headed e he
    · exact ⟨a, [], rfl, rfl⟩
    · rcases h.headed old hold with ⟨first, others, hgroup, hfirst⟩
      exact ⟨first, others ++ [a], by rw [hgroup]; rfl, hfirst⟩
  alike e he b hb := by
    rcases mem_toList_alter he with he | rfl | ⟨old, hold, hkey, rfl⟩
    · exact h.alike e he b hb
    · rw [List.mem_singleton.1 hb]
      exact Std.ReflCmp.compare_self
    · rcases List.mem_append.1 hb with hb | hb
      · exact h.alike old hold b hb
      · rwa [List.mem_singleton.1 hb]

/-- So are any number of members. -/
theorem Grouped.foldl_gather (h : Grouped key m) (l : List α) :
    Grouped key (l.foldl (SortedMap.gather key) m) := by
  induction l generalizing m with
  | nil => exact h
  | cons a l ih => exact ih (h.gather a)

/-- The groups of a list are groups. -/
theorem grouped_groups (key : α → κ) (l : List α) : Grouped key (groups key l) :=
  have hempty : Grouped key (∅ : SortedMap κ (List α)) := ⟨nofun, nofun⟩
  hempty.foldl_gather l

/-! ## What the groups hold -/

/-- A look-up finds the members of a key, in the order in which they came. -/
theorem get?_foldl_gather (l : List α) (m : SortedMap κ (List α)) (k : κ) :
    (l.foldl (gather key) m).get? k =
      if l.filter (hasKey key k) = [] then m.get? k
      else some ((m.get? k).getD [] ++ l.filter (hasKey key k)) := by
  -- each member finds the groups of those before it, so the induction is for every map
  induction l generalizing m with
  | nil => rfl
  | cons a l ih =>
    rw [List.foldl_cons, ih, gather, get?_alter]
    by_cases hkey : compare (key a) k = .eq
    · have hkey' : compare k (key a) = .eq := Std.OrientedCmp.eq_symm hkey
      -- the member is one of the key, and comes before the later ones of it
      rw [if_pos hkey', ← m.get?_congr hkey', List.filter_cons_of_pos (hasKey_iff.2 hkey),
        if_neg (List.cons_ne_nil _ _)]
      by_cases hrest : l.filter (hasKey key k) = []
      · rw [if_pos hrest, hrest]
      · rw [if_neg hrest, Option.getD_some, List.append_assoc]
        rfl
    · -- the member is one of another key, and nothing changes
      have hkey' : ¬ compare k (key a) = .eq := fun h => hkey (Std.OrientedCmp.eq_symm h)
      rw [if_neg hkey', List.filter_cons_of_neg (mt hasKey_iff.1 hkey)]

omit [Std.TransOrd κ] in
/-- One member more is all that changes in the groups together. -/
theorem flatten_placeBy_perm (k : κ) (a : α) (entries : List (κ × List α)) :
    ((Sorted.placeBy Prod.fst k (changeEntry k fun group => group.getD [] ++ [a])
      entries).flatMap (·.2)).Perm (entries.flatMap (·.2) ++ [a]) := by
  induction entries with
  | nil => exact .refl [a]
  | cons entry entries ih =>
    unfold Sorted.placeBy
    split
    · -- a group of its own, in front of the others
      exact (List.perm_append_singleton a _).symm
    · -- the member comes after those of its group, and the other groups come after it
      simp only [List.flatMap_cons, changeEntry, Option.getD_some, List.append_assoc]
      exact .append_left entry.2 List.perm_append_comm
    · -- its place is further back
      simp only [List.flatMap_cons, List.append_assoc]
      exact ih.append_left entry.2

/-- Grouping loses nothing and doubles nothing. -/
theorem members_foldl_gather_perm (l : List α) (m : SortedMap κ (List α)) :
    (l.foldl (gather key) m).members.Perm (m.members ++ l) := by
  induction l generalizing m with
  | nil => simp
  | cons a l ih =>
    calc (l.foldl (gather key) (m.gather key a)).members
        |>.Perm ((m.gather key a).members ++ l) := ih (m.gather key a)
      _ |>.Perm (m.members ++ [a] ++ l) := (flatten_placeBy_perm (key a) a m.toList).append_right l
      _ |>.Perm (m.members ++ a :: l) := by simp

/-! ## Groups one after the other -/

/-- Members compare as their groups do. -/
theorem Grouped.compare_eq (h : Grouped key m) {e e' : κ × List α} (he : e ∈ m.toList)
    (he' : e' ∈ m.toList) {a b : α} (ha : a ∈ e.2) (hb : b ∈ e'.2) :
    compare (key a) (key b) = compare e.1 e'.1 := by
  rw [Std.TransCmp.congr_left (h.alike e he a ha), Std.TransCmp.congr_right (h.alike e' he' b hb)]

/-- Members of one group compare as equal. -/
theorem Grouped.compare_eq_eq (h : Grouped key m) {e : κ × List α} (he : e ∈ m.toList) {a b : α}
    (ha : a ∈ e.2) (hb : b ∈ e.2) : compare (key a) (key b) = .eq :=
  (h.compare_eq he he ha hb).trans Std.ReflCmp.compare_self

/-- One group after the other, the members are ranked by their keys. -/
theorem Grouped.ranked (h : Grouped key m) :
    m.members.Pairwise fun a b => (compare (key a) (key b)).isLE = true := by
  rw [members, List.pairwise_flatMap]
  constructor
  · -- within a group
    intro e he
    apply List.pairwise_of_forall_mem_list
    intro a ha b hb
    rw [h.compare_eq_eq he ha hb]
    rfl
  · -- from one group to a later one
    apply m.increasing.imp_of_mem
    intro e e' he he' hlt a ha b hb
    rw [h.compare_eq he he' ha hb, hlt]
    rfl

/-- The members of a key are those of its group. -/
theorem Grouped.filter_members (h : Grouped key m) (k : κ) :
    m.members.filter (hasKey key k) = (m.get? k).getD [] := by
  have halike := h.alike
  have hincreasing := m.increasing
  rw [members, get?]
  -- both sides go through the entries: a filter over all members, and a search for the key
  generalize m.toList = l at *
  induction l with
  | nil => rfl
  | cons e l ih =>
    rw [List.flatMap_cons, List.filter_append,
      ih (fun x hx => halike x (List.mem_cons_of_mem e hx)) (List.pairwise_cons.1 hincreasing).2]
    have hmember : ∀ a ∈ e.2, compare (key a) k = compare e.1 k :=
      fun a ha => Std.TransCmp.congr_left (halike e List.mem_cons_self a ha)
    by_cases hk : compare k e.1 = .eq
    · have hall : e.2.filter (hasKey key k) = e.2 := by
        rw [List.filter_eq_self]
        intro a ha
        rw [hasKey_iff, hmember a ha]
        exact Std.OrientedCmp.eq_symm hk
      rw [hall, List.find?_cons_of_pos (by simp [hk]),
        Sorted.find?_eq_none_of_increases Prod.fst hincreasing (by simp [hk])]
      exact List.append_nil e.2
    · have hnone : e.2.filter (hasKey key k) = [] := by
        rw [List.filter_eq_nil_iff]
        intro a ha
        rw [hasKey_iff, hmember a ha]
        exact fun heq => hk (Std.OrientedCmp.eq_symm heq)
      rw [hnone, List.find?_cons_of_neg (by simpa using hk), List.nil_append]

/-- The members of a list, group by group, are the list stably sorted by key. -/
theorem isStableSort_groups (key : α → κ) (l : List α) :
    IsStableSort (fun a b => (compare (key a) (key b)).isLE) l (groups key l).members where
  perm := members_foldl_gather_perm l ∅
  ranked := (grouped_groups key l).ranked
  stable a := by
    have htied : (fun b => (compare (key a) (key b)).isLE && (compare (key b) (key a)).isLE) =
        hasKey key (key a) := by
      funext b
      have hswap : compare (key a) (key b) = (compare (key b) (key a)).swap :=
        Std.OrientedCmp.eq_swap
      rw [hasKey, hswap]
      cases compare (key b) (key a) <;> rfl
    rw [htied, (grouped_groups key l).filter_members, groups, get?_foldl_gather, get?_empty]
    split
    · next hnone => rw [hnone]; rfl
    · rfl

/-- The groups are the longest runs of members of one key. -/
theorem Grouped.splitBy_members (h : Grouped key m) :
    m.members.splitBy (fun a b => compare (key a) (key b) == .eq) = m.values := by
  rw [List.splitBy_eq_iff]
  refine ⟨rfl, ?nonempty, ?alike, ?apart⟩
  case nonempty =>
    intro hnil
    rcases List.mem_map.1 hnil with ⟨e, he, hempty⟩
    exact h.ne_nil he hempty
  case alike =>
    intro group hgroup
    rcases List.mem_map.1 hgroup with ⟨e, he, rfl⟩
    apply List.Pairwise.isChain
    apply List.pairwise_of_forall_mem_list
    intro a ha b hb
    rw [h.compare_eq_eq he ha hb]
    rfl
  case apart =>
    apply List.Pairwise.isChain
    rw [values, List.pairwise_map]
    apply m.increasing.imp_of_mem
    intro e e' he he' hlt
    refine ⟨h.ne_nil he, h.ne_nil he', ?_⟩
    rw [h.compare_eq he he' (List.getLast_mem _) (List.head_mem _), hlt]
    rfl

end CallLint.SortedMap
