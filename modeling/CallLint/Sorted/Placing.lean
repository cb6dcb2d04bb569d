/-!
# Lists that increase by a key

Sorted maps and sorted sets are lists whose members increase strictly by a key: the first half of an
entry, or the member itself. A list changes at one key at a time, and keeps its order.

* `Sorted.placeBy` changes the member of a key, or puts one in.
* `Sorted.increases_placeBy`: the list still increases.
* `Sorted.find?_placeBy`: what a look-up finds afterwards.
-/

namespace CallLint.Sorted

variable {α κ : Type} [Ord κ]

/-- Whether a list increases strictly by a key. -/
abbrev Increases (key : α → κ) (l : List α) : Prop :=
  l.Pairwise fun a b => compare (key a) (key b) = .lt

/-- Puts what `change` makes of the member of a key, if there is one, at its place in an increasing
list. -/
def placeBy (key : α → κ) (k : κ) (change : Option α → α) : List α → List α
  | [] => [change none]
  | a :: l =>
    match compare k (key a) with
    | .lt => change none :: a :: l
    | .eq => change (some a) :: l
    | .gt => a :: placeBy key k change l

/-- Whether a change makes new members with a key, and leaves the keys of members as they are. -/
structure KeepsKey (key : α → κ) (k : κ) (change : Option α → α) : Prop where
  new : key (change none) = k
  old : ∀ a, key (change (some a)) = key a

variable {key : α → κ} {k : κ} {change : Option α → α} {l : List α}

/-- A member after a change is an old one, or it is new, or it is what has become of the member of
the key. -/
theorem mem_placeBy {x : α} (h : x ∈ placeBy key k change l) :
    x ∈ l ∨ x = change none ∨ ∃ a ∈ l, compare k (key a) = .eq ∧ x = change (some a) := by
  induction l with
  | nil => exact .inr (.inl (List.mem_singleton.1 h))
  | cons a l ih =>
    unfold placeBy at h
    split at h
    · -- the key belongs in front of `a`
      rcases List.mem_cons.1 h with rfl | hx
      · exact .inr (.inl rfl)
      · exact .inl hx
    · -- `a` has the key
      next hkey =>
      rcases List.mem_cons.1 h with rfl | hx
      · exact .inr (.inr ⟨a, List.mem_cons_self, hkey, rfl⟩)
      · exact .inl (List.mem_cons_of_mem a hx)
    · -- the key belongs further back
      rcases List.mem_cons.1 h with rfl | hx
      · exact .inl List.mem_cons_self
      · rcases ih hx with hold | hnew | ⟨b, hb, hchanged⟩
        · exact .inl (List.mem_cons_of_mem a hold)
        · exact .inr (.inl hnew)
        · exact .inr (.inr ⟨b, List.mem_cons_of_mem a hb, hchanged⟩)

/-- No other keys appear than the one where the list is changed. -/
theorem key_of_mem_placeBy (hkeeps : KeepsKey key k change) {x : α}
    (h : x ∈ placeBy key k change l) : key x = k ∨ ∃ a ∈ l, key x = key a := by
  rcases mem_placeBy h with hold | rfl | ⟨a, ha, -, rfl⟩
  · exact .inr ⟨x, hold, rfl⟩
  · exact .inl hkeeps.new
  · exact .inr ⟨a, ha, hkeeps.old a⟩

variable [Std.TransOrd κ]

/-- A list that is changed at a key still increases. -/
theorem increases_placeBy (hkeeps : KeepsKey key k change) (h : Increases key l) :
    Increases key (placeBy key k change l) := by
  induction l with
  | nil => exact List.pairwise_singleton _ _
  | cons a l ih =>
    rcases List.pairwise_cons.1 h with ⟨hfirst, hrest⟩
    unfold placeBy
    split
    · -- the key comes before `a`, and so before all that follows
      next hlt =>
      refine List.pairwise_cons.2 ⟨?_, h⟩
      intro x hx
      rw [hkeeps.new]
      rcases List.mem_cons.1 hx with rfl | hx
      · exact hlt
      · exact Std.TransCmp.lt_trans hlt (hfirst x hx)
    · -- `a` is changed, but not its key
      refine List.pairwise_cons.2 ⟨?_, hrest⟩
      intro x hx
      rw [hkeeps.old]
      exact hfirst x hx
    · -- the change is further back, and the only key that it may add comes after `a`
      next hgt =>
      refine List.pairwise_cons.2 ⟨?_, ih hrest⟩
      intro x hx
      rcases key_of_mem_placeBy hkeeps hx with hkey | ⟨b, hb, hkey⟩
      · rw [hkey]
        exact Std.OrientedCmp.lt_of_gt hgt
      · rw [hkey]
        exact hfirst b hb

/-- A key that comes before the first member, or is that of the first member, is not found behind
it. -/
theorem find?_eq_none_of_increases (key : α → κ) {a : α} (h : Increases key (a :: l))
    (hk : compare k (key a) ≠ .gt) : l.find? (fun b => compare k (key b) == .eq) = none := by
  rw [List.find?_eq_none]
  intro b hb hfound
  have hlt : compare k (key b) = .lt :=
    Std.TransCmp.lt_of_isLE_of_lt (Ordering.isLE_iff_ne_gt.2 hk) ((List.pairwise_cons.1 h).1 b hb)
  simp [hlt] at hfound

/-- A look-up after a change finds the changed member at the key, and the old members elsewhere. -/
theorem find?_placeBy (hkeeps : KeepsKey key k change) (h : Increases key l) (x : κ) :
    (placeBy key k change l).find? (fun a => compare x (key a) == .eq) =
      if compare x k = .eq then some (change (l.find? fun a => compare k (key a) == .eq))
      else l.find? fun a => compare x (key a) == .eq := by
  induction l with
  | nil => by_cases hx : compare x k = .eq <;> simp [placeBy, hkeeps.new, hx]
  | cons a l ih =>
    have htail := ih (List.pairwise_cons.1 h).2
    -- what compares as equal to the key compares alike with everything
    have hsame : compare x k = .eq → ∀ y, compare x y = compare k y :=
      fun hx y => Std.TransCmp.congr_left hx
    unfold placeBy
    split
    · -- a new member in front: the key is not found in the old list
      next hlt =>
      have hnone : (a :: l).find? (fun b => compare k (key b) == .eq) = none := by
        rw [List.find?_cons_of_neg (by simp [hlt])]
        exact find?_eq_none_of_increases key h (by simp [hlt])
      by_cases hx : compare x k = .eq
      · rw [List.find?_cons_of_pos (by simp [hkeeps.new, hx]), if_pos hx, hnone]
      · rw [List.find?_cons_of_neg (by simp [hkeeps.new, hx]), if_neg hx]
    · -- the first member has the key
      next heq =>
      by_cases hx : compare x k = .eq
      · rw [List.find?_cons_of_pos (by simp [hkeeps.old, hsame hx, heq]), if_pos hx,
          List.find?_cons_of_pos (by simp [heq])]
      · have hother : ¬ compare x (key a) = .eq := fun hxa =>
          hx (Std.TransCmp.eq_trans hxa (Std.OrientedCmp.eq_symm heq))
        rw [List.find?_cons_of_neg (by simp [hkeeps.old, hother]), if_neg hx,
          List.find?_cons_of_neg (by simp [hother])]
    · -- the change is further back
      next hgt =>
      by_cases hx : compare x k = .eq
      · rw [if_pos hx] at htail ⊢
        rw [List.find?_cons_of_neg (by simp [hsame hx, hgt]), htail,
          List.find?_cons_of_neg (by simp [hgt])]
      · rw [if_neg hx] at htail ⊢
        rw [List.find?_cons, List.find?_cons, htail]

end CallLint.Sorted
