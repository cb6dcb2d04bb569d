import CallLint.Proofs.Sorted.Increasing
import CallLint.Sorted.Set

/-!
# Members of sorted sets

A sorted set is what comes of putting in its members, in the order in which they are listed.

* `ext_mem`, `empty_union`: sets with the same members are the same.
* `ofList_toList`: a set is the set of its members.
* `mem_of_mem_toList_ofList`: where members come from.
-/

namespace CallLint.SortedSet

variable {α : Type} [Ord α] [Std.TransOrd α]

/-- No member is listed twice. -/
theorem nodup_toList (s : SortedSet α) : s.toList.Nodup := Sorted.nodup_of_increases id s.increasing

/-- Sets with the same members are the same. -/
theorem ext_mem {s t : SortedSet α} (h : ∀ x, x ∈ s ↔ x ∈ t) : s = t := by
  have hlist : s.toList = t.toList := Sorted.eq_of_increases id s.increasing t.increasing h
  cases s
  cases t
  congr

/-- Members that are put in one after the other, told as changes of a list. -/
theorem toList_ofList (l : List α) :
    (ofList l).toList = l.foldl (fun members a => Sorted.placeBy id a (·.getD a) members) [] :=
  (List.foldl_hom toList fun _ _ => rfl).symm

/-- A set is the set of its members. -/
@[simp] theorem ofList_toList (s : SortedSet α) : ofList s.toList = s := by
  have hlist : (ofList s.toList).toList = s.toList := by
    rw [toList_ofList]
    exact Sorted.foldl_placeBy (fun _ => rfl) s.increasing
  exact ext_mem fun a => by rw [mem_def, hlist, mem_def]

/-- A member of a set that is made of a list comes from the list. -/
theorem mem_of_mem_toList_ofList {l : List α} {x : α} (h : x ∈ (ofList l).toList) : x ∈ l := by
  rw [toList_ofList] at h
  refine Sorted.forall_mem_foldl_placeBy (· ∈ l) (List.forall_mem_nil _) ?_ x h
  intro a ha
  exact ⟨ha, fun b hb => hb⟩

@[simp] theorem empty_union [Std.LawfulEqOrd α] (s : SortedSet α) :
    (∅ : SortedSet α).union s = s := by
  apply ext_mem
  intro x
  have hempty : ¬ x ∈ (∅ : SortedSet α) := List.not_mem_nil
  rw [mem_union, or_iff_right hempty]

end CallLint.SortedSet
