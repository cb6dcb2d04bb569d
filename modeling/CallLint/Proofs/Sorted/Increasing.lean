import CallLint.Sorted.Placing

/-!
# Laws of increasing lists

What sorted maps and sorted sets have in common. An increasing list is known by its members, and it
comes back if they are put in one after the other.

* `nodup_of_increases`, `eq_of_increases`: nothing occurs twice, and there is only one order.
* `placeBy_of_lt`, `foldl_placeBy`: where members go that come after all others.
* `forall_mem_foldl_placeBy`: what changes keep up about the members.
-/

namespace CallLint.Sorted

variable {α κ : Type} [Ord κ]

/-! ## Members -/

section Members

variable [Std.TransOrd κ]

/-- A list that increases strictly by a key has no member twice. -/
theorem nodup_of_increases (key : α → κ) {l : List α} (h : Increases key l) : l.Nodup := by
  refine h.imp ?_
  rintro a b hlt rfl
  have hself : compare (key a) (key a) = .eq := Std.ReflCmp.compare_self
  rw [hself] at hlt
  cases hlt

/-- Lists that increase strictly by a key are the same if they have the same members. -/
theorem eq_of_increases (key : α → κ) {l l' : List α} (hl : Increases key l)
    (hl' : Increases key l')
    (h : ∀ a, a ∈ l ↔ a ∈ l') : l = l' := by
  have hperm : l.Perm l' := by
    rw [List.perm_ext_iff_of_nodup (nodup_of_increases key hl) (nodup_of_increases key hl')]
    exact h
  apply hperm.eq_of_pairwise _ hl hl'
  -- no two members are both in front of each other
  intro a b _ _ hab hba
  have hlt : compare (key a) (key a) = .lt := Std.TransCmp.lt_trans hab hba
  have hself : compare (key a) (key a) = .eq := Std.ReflCmp.compare_self
  rw [hlt] at hself
  cases hself

end Members

/-! ## Changes one after the other -/

variable {key : α → κ} {l : List α}

/-- A key after all others comes last. -/
theorem placeBy_of_lt [Std.OrientedOrd κ] {k : κ} {change : Option α → α}
    (h : ∀ a ∈ l, compare (key a) k = .lt) : placeBy key k change l = l ++ [change none] := by
  induction l with
  | nil => rfl
  | cons a l ih =>
    have hgt : compare k (key a) = .gt := Std.OrientedCmp.gt_of_lt (h a List.mem_cons_self)
    rw [placeBy, hgt, ih fun b hb => h b (List.mem_cons_of_mem a hb)]
    rfl

/-- Members that are put in from the first to the last, behind those that are there, stay in their
order. -/
theorem foldl_placeBy [Std.OrientedOrd κ] {change : α → Option α → α}
    (hnew : ∀ a, change a none = a)
    {front : List α} (h : Increases key (front ++ l)) :
    l.foldl (fun members a => placeBy key (key a) (change a) members) front = front ++ l := by
  induction l generalizing front with
  | nil => exact (List.append_nil front).symm
  | cons a l ih =>
    have hlast : ∀ b ∈ front, compare (key b) (key a) = .lt := by
      intro b hb
      exact (List.pairwise_append.1 h).2.2 b hb a List.mem_cons_self
    rw [List.append_cons] at h
    rw [List.foldl_cons, placeBy_of_lt hlast, hnew, ih h, List.append_assoc, List.singleton_append]

/-- What holds of the members, and of what changes put in or make of such members, holds after all
changes. -/
theorem forall_mem_foldl_placeBy (P : α → Prop) {change : α → Option α → α} {front : List α}
    (hfront : ∀ x ∈ front, P x)
    (hchange : ∀ a ∈ l, P (change a none) ∧ ∀ b, P b → P (change a (some b))) :
    ∀ x ∈ l.foldl (fun members a => placeBy key (key a) (change a) members) front, P x := by
  induction l generalizing front with
  | nil => exact hfront
  | cons a l ih =>
    refine ih ?_ fun b hb => hchange b (List.mem_cons_of_mem a hb)
    -- one change keeps the property up
    intro x hx
    rcases hchange a List.mem_cons_self with ⟨hnew, hold⟩
    rcases mem_placeBy hx with hx | rfl | ⟨b, hb, -, rfl⟩
    · exact hfront x hx
    · exact hnew
    · exact hold b (hfront b hb)

end CallLint.Sorted
