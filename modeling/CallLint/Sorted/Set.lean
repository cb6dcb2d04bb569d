import CallLint.Sorted.Placing

/-!
# Sorted sets

A finite set is kept as the list of its members in strictly increasing order, so two sets with the
same members are equal and listing a set needs no sorting.

* `SortedSet.insert` keeps the member that is already there.
* `SortedSet.mem_insert`, `SortedSet.mem_union`, `SortedSet.mem_ofList`: who is a member afterwards.
-/

namespace CallLint

/-- A finite set, as the strictly increasing list of its members. -/
structure SortedSet (α : Type) [Ord α] where
  /-- The members in increasing order. -/
  toList : List α
  increasing : toList.Pairwise fun a b => compare a b = .lt
deriving DecidableEq, Repr

namespace SortedSet

variable {α : Type} [Ord α]

variable [Std.TransOrd α]

/-- The set without members. -/
def empty : SortedSet α := ⟨[], .nil⟩

instance : EmptyCollection (SortedSet α) := ⟨empty⟩
instance : Inhabited (SortedSet α) := ⟨empty⟩

omit [Ord α] [Std.TransOrd α] in
/-- A member that is there already stays. -/
theorem keepsKey_getD (a : α) : Sorted.KeepsKey id a (·.getD a) := ⟨rfl, fun _ => rfl⟩

/-- Adds a member, unless there is one that is equal to it. -/
def insert (s : SortedSet α) (a : α) : SortedSet α :=
  ⟨Sorted.placeBy id a (·.getD a) s.toList, Sorted.increases_placeBy (keepsKey_getD a) s.increasing⟩

/-- The members of both sets. -/
def union (s t : SortedSet α) : SortedSet α := t.toList.foldl insert s

/-- The set of the members of a list. -/
def ofList (l : List α) : SortedSet α := l.foldl insert empty

/-- How many members there are. -/
def size (s : SortedSet α) : Nat := s.toList.length

/-- Whether there is no member. -/
def isEmpty (s : SortedSet α) : Bool := s.toList.isEmpty

instance : Membership α (SortedSet α) := ⟨fun s a => a ∈ s.toList⟩

instance [DecidableEq α] (a : α) (s : SortedSet α) : Decidable (a ∈ s) :=
  inferInstanceAs (Decidable (a ∈ s.toList))

omit [Std.TransOrd α] in
/-- The members are those that are listed. -/
theorem mem_def {a : α} {s : SortedSet α} : a ∈ s ↔ a ∈ s.toList := Iff.rfl

omit [Std.TransOrd α] in
/-- Where only equal members compare as equal, the members are those that are found. -/
theorem mem_iff_find? [Std.LawfulEqOrd α] {s : SortedSet α} {a : α} :
    a ∈ s ↔ (s.toList.find? fun b => compare a (id b) == .eq).isSome = true := by
  simp [mem_def]

/-- Adding a member adds that one and no other. -/
@[simp] theorem mem_insert [Std.LawfulEqOrd α] {s : SortedSet α} {a x : α} :
    x ∈ s.insert a ↔ x = a ∨ x ∈ s := by
  have hfound := Sorted.find?_placeBy (keepsKey_getD a) s.increasing x
  rw [mem_iff_find?, mem_iff_find?, insert, hfound]
  by_cases hx : x = a
  · simp [hx]
  · simp [hx]

/-- Adding members one after the other adds them all. -/
@[simp] theorem mem_foldl_insert [Std.LawfulEqOrd α] {l : List α} {s : SortedSet α} {x : α} :
    x ∈ l.foldl insert s ↔ x ∈ s ∨ x ∈ l := by
  induction l generalizing s with
  | nil => simp
  | cons a l ih => simp only [List.foldl_cons, ih, mem_insert, List.mem_cons]; grind

/-- The members of a union are those of both sets. -/
@[simp] theorem mem_union [Std.LawfulEqOrd α] {s t : SortedSet α} {x : α} :
    x ∈ s.union t ↔ x ∈ s ∨ x ∈ t := mem_foldl_insert

/-- The set of a list has the members of the list. -/
@[simp] theorem mem_ofList [Std.LawfulEqOrd α] {l : List α} {x : α} : x ∈ ofList l ↔ x ∈ l := by
  rw [ofList, mem_foldl_insert]
  simp [empty, mem_def]

end SortedSet

end CallLint
