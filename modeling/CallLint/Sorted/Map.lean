import CallLint.Sorted.Placing

/-!
# Sorted maps

A finite map is kept as its entries in strictly increasing order of their keys. Keys are compared by
`compare`, which may call two different keys equal (paths are compared by components): the key that
came first is then the one that stays.

* `SortedMap.alter` changes one entry, `SortedMap.insert` sets one.
* `SortedMap.get?_alter`: what a look-up answers afterwards.
-/

namespace CallLint

/-- A finite map, as its entries in strictly increasing order of their keys. -/
structure SortedMap (κ β : Type) [Ord κ] where
  /-- The entries in increasing order of their keys. -/
  toList : List (κ × β)
  increasing : toList.Pairwise fun a b => compare a.1 b.1 = .lt
deriving DecidableEq, Repr

namespace SortedMap

variable {κ β γ : Type} [Ord κ]

/-- An entry of a key, with the value `f` of the value that the key has had. The old key stays. -/
def changeEntry (k : κ) (f : Option β → β) : Option (κ × β) → κ × β
  | none => (k, f none)
  | some e => (e.1, f (some e.2))

omit [Ord κ] in
/-- A change of a value leaves the keys as they are. -/
theorem keepsKey_changeEntry (k : κ) (f : Option β → β) :
    Sorted.KeepsKey Prod.fst k (changeEntry k f) := ⟨rfl, fun _ => rfl⟩

omit [Ord κ] in
/-- The value of an entry after a change. -/
@[simp] theorem changeEntry_snd (k : κ) (f : Option β → β) (e : Option (κ × β)) :
    (changeEntry k f e).2 = f (e.map (·.2)) := by
  cases e <;> rfl

/-- The map without entries. -/
def empty : SortedMap κ β := ⟨[], .nil⟩

instance : EmptyCollection (SortedMap κ β) := ⟨empty⟩
instance : Inhabited (SortedMap κ β) := ⟨empty⟩

/-- The value of a key. -/
def get? (m : SortedMap κ β) (k : κ) : Option β :=
  (m.toList.find? fun e => compare k e.1 == .eq).map (·.2)

/-- The keys in increasing order. -/
def keys (m : SortedMap κ β) : List κ := m.toList.map (·.1)

/-- The values in increasing order of their keys. -/
def values (m : SortedMap κ β) : List β := m.toList.map (·.2)

/-- How many entries there are. -/
def size (m : SortedMap κ β) : Nat := m.toList.length

/-- Whether there is no entry. -/
def isEmpty (m : SortedMap κ β) : Bool := m.toList.isEmpty

/-- Changes the values and keeps the keys. -/
def map (f : β → γ) (m : SortedMap κ β) : SortedMap κ γ :=
  ⟨m.toList.map fun e => (e.1, f e.2), by simpa [List.pairwise_map] using m.increasing⟩

variable [Std.TransOrd κ]

/-- Gives key `k` the value `f` of its old value. -/
def alter (m : SortedMap κ β) (k : κ) (f : Option β → β) : SortedMap κ β :=
  ⟨Sorted.placeBy Prod.fst k (changeEntry k f) m.toList,
    Sorted.increases_placeBy (keepsKey_changeEntry k f) m.increasing⟩

/-- Gives key `k` the value `b`. -/
def insert (m : SortedMap κ β) (k : κ) (b : β) : SortedMap κ β := m.alter k fun _ => b

/-- The map of a list of entries; the last value of a key wins. -/
def ofList (l : List (κ × β)) : SortedMap κ β := l.foldl (fun m e => m.insert e.1 e.2) empty

/-- Gives each key of `t` the value `f` of its value in `s`, if any, and its value in `t`. -/
def mergeWith (f : Option β → β → β) (s t : SortedMap κ β) : SortedMap κ β :=
  t.toList.foldl (fun m e => m.alter e.1 fun old => f old e.2) s

/-- A look-up after a change sees the new value at the changed key and the old values elsewhere. -/
theorem get?_alter (m : SortedMap κ β) (k x : κ) (f : Option β → β) :
    (m.alter k f).get? x = if compare x k = .eq then some (f (m.get? k)) else m.get? x := by
  have hfound := Sorted.find?_placeBy (keepsKey_changeEntry k f) m.increasing x
  rw [get?, alter, hfound]
  split
  · rw [Option.map_some, changeEntry_snd, get?]
  · rw [get?]

/-- An entry after a change is an old one, or it is new, or its value is the changed one of its
key. -/
theorem mem_toList_alter {m : SortedMap κ β} {k : κ} {f : Option β → β} {e : κ × β}
    (h : e ∈ (m.alter k f).toList) :
    e ∈ m.toList ∨ e = (k, f none) ∨
      ∃ old ∈ m.toList, compare k old.1 = .eq ∧ e = (old.1, f (some old.2)) := Sorted.mem_placeBy h

end SortedMap

end CallLint
