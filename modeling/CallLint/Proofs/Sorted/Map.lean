import CallLint.Proofs.Sorted.Increasing
import CallLint.Sorted.Map

/-!
# Entries of sorted maps

A look-up finds the one entry whose key compares as equal, so the entries and the look-ups of a map
say the same.

* `get?_eq_some_of_mem`, `mem_toList_iff`: entries and look-ups.
* `ext_mem`, `ext_get?`: maps with the same entries, or the same look-ups, are the same.
* `keys_ext`: keys are in one order.
* `toList_insert_of_lt`: where an entry goes that is put in last.
* `ofList_toList`: a map is the map of its entries.
* `get?_mergeWith`, `mergeWith_assoc`: what merging does to look-ups, and that it can be grouped in
  any way.
-/

namespace CallLint.SortedMap

variable {κ β : Type} [Ord κ]

@[simp] theorem get?_empty (k : κ) : (∅ : SortedMap κ β).get? k = none := rfl

variable [Std.TransOrd κ]

/-- Keys that compare as equal are looked up alike. -/
theorem get?_congr (m : SortedMap κ β) {k k' : κ} (h : compare k k' = .eq) :
    m.get? k = m.get? k' := by
  rw [get?, get?]
  congr 2
  funext e
  rw [Std.TransCmp.congr_left h]

/-- An entry is found under every key that compares as equal to its own. -/
theorem get?_eq_some_of_mem {m : SortedMap κ β} {k : κ} {e : κ × β} (he : e ∈ m.toList)
    (hk : compare k e.1 = .eq) : m.get? k = some e.2 := by
  rcases List.append_of_mem he with ⟨before, after, hsplit⟩
  have hincreasing := m.increasing
  rw [hsplit, List.pairwise_append] at hincreasing
  -- an entry further to the front has a smaller key, so the look-up passes over it
  have hbefore : before.find? (fun x => compare k x.1 == .eq) = none := by
    rw [List.find?_eq_none]
    intro x hx hkx
    have hlt := hincreasing.2.2 x hx e List.mem_cons_self
    have heq : compare x.1 e.1 = .eq :=
      Std.TransCmp.eq_trans (Std.OrientedCmp.eq_symm (by simpa using hkx)) hk
    rw [hlt] at heq
    cases heq
  rw [get?, hsplit, List.find?_append, hbefore]
  simp [hk]

/-- No entry is listed twice. -/
theorem nodup_toList (m : SortedMap κ β) : m.toList.Nodup :=
  Sorted.nodup_of_increases Prod.fst m.increasing

omit [Std.TransOrd κ] in
/-- What a look-up finds is in an entry whose key compares as equal. -/
theorem exists_mem_of_get? {m : SortedMap κ β} {k : κ} {b : β} (h : m.get? k = some b) :
    ∃ k', compare k k' = .eq ∧ (k', b) ∈ m.toList := by
  rcases Option.map_eq_some_iff.1 h with ⟨⟨k', b'⟩, hfind, rfl⟩
  exact ⟨k', by simpa using List.find?_some hfind, List.mem_of_find?_eq_some hfind⟩

/-- Where only equal keys compare as equal, the entries are the pairs that look-ups find. -/
theorem mem_toList_iff [Std.LawfulEqOrd κ] {m : SortedMap κ β} {k : κ} {b : β} :
    (k, b) ∈ m.toList ↔ m.get? k = some b := by
  constructor
  · intro h
    exact get?_eq_some_of_mem h Std.ReflCmp.compare_self
  · intro h
    rcases exists_mem_of_get? h with ⟨k', hk, hmem⟩
    rw [Std.LawfulEqCmp.eq_of_compare hk]
    exact hmem

/-- Maps with the same entries are the same. -/
theorem ext_mem {m m' : SortedMap κ β} (h : ∀ e, e ∈ m.toList ↔ e ∈ m'.toList) : m = m' := by
  have hlist : m.toList = m'.toList := Sorted.eq_of_increases Prod.fst m.increasing m'.increasing h
  cases m
  cases m'
  congr

/-- The keys of two maps come in the same order if they are the same. -/
theorem keys_ext {m m' : SortedMap κ β} (h : ∀ k, k ∈ m.keys ↔ k ∈ m'.keys) : m.keys = m'.keys :=
  Sorted.eq_of_increases id (List.pairwise_map.2 m.increasing) (List.pairwise_map.2 m'.increasing) h

/-- Where only equal keys compare as equal, a map is known by its look-ups. -/
theorem ext_get? [Std.LawfulEqOrd κ] {m m' : SortedMap κ β} (h : ∀ k, m.get? k = m'.get? k) :
    m = m' := by
  apply ext_mem
  rintro ⟨k, b⟩
  rw [mem_toList_iff, mem_toList_iff, h]

/-- A key after all others comes last. -/
theorem toList_insert_of_lt {m : SortedMap κ β} {k : κ} (b : β)
    (h : ∀ e ∈ m.toList, compare e.1 k = .lt) :
    (m.insert k b).toList = m.toList ++ [(k, b)] := Sorted.placeBy_of_lt h

/-- Entries that are put in one after the other, told as changes of a list. -/
theorem toList_ofList (l : List (κ × β)) :
    (ofList l).toList =
      l.foldl (fun entries e =>
        Sorted.placeBy Prod.fst e.1 (changeEntry e.1 fun _ => e.2) entries) [] :=
  (List.foldl_hom toList fun _ _ => rfl).symm

/-- A map is the map of its entries. -/
@[simp] theorem ofList_toList (m : SortedMap κ β) : ofList m.toList = m := by
  have hlist : (ofList m.toList).toList = m.toList := by
    rw [toList_ofList]
    exact Sorted.foldl_placeBy (fun _ => rfl) m.increasing
  exact ext_mem fun e => by rw [hlist]

/-- A value of a map that is made of a list comes from the list. -/
theorem value_of_mem_toList_ofList {l : List (κ × β)} {e : κ × β} (h : e ∈ (ofList l).toList) :
    ∃ x ∈ l, e.2 = x.2 := by
  rw [toList_ofList] at h
  -- whether an entry is new or changed, its value is the one that was put in
  refine Sorted.forall_mem_foldl_placeBy (fun e => ∃ x ∈ l, e.2 = x.2)
    (List.forall_mem_nil _) ?_ e h
  intro a ha
  exact ⟨⟨a, ha, rfl⟩, fun _ _ => ⟨a, ha, rfl⟩⟩

/-- Putting in an entry changes the look-up of its own key, and no other one. -/
@[simp] theorem get?_insert [Std.LawfulEqOrd κ] [DecidableEq κ] (m : SortedMap κ β) (k x : κ)
    (b : β) :
    (m.insert k b).get? x = if x = k then some b else m.get? x := by
  rw [insert, get?_alter]
  simp only [Std.compare_eq_iff_eq]

/-- The keys are those under which something is found. -/
theorem mem_keys_iff [Std.LawfulEqOrd κ] {m : SortedMap κ β} {k : κ} :
    k ∈ m.keys ↔ (m.get? k).isSome = true := by
  rw [keys, List.mem_map, Option.isSome_iff_exists]
  constructor
  · rintro ⟨⟨k, b⟩, he, rfl⟩
    exact ⟨b, mem_toList_iff.1 he⟩
  · rintro ⟨b, hb⟩
    exact ⟨(k, b), mem_toList_iff.2 hb, rfl⟩

/-- A new entry adds its key and no other. -/
@[simp] theorem mem_keys_insert [Std.LawfulEqOrd κ] {m : SortedMap κ β} {k x : κ} {b : β} :
    x ∈ (m.insert k b).keys ↔ x = k ∨ x ∈ m.keys := by
  classical
  rw [mem_keys_iff, mem_keys_iff, get?_insert]
  split <;> simp [*]

/-! ## Merging -/

/-- Going through increasing entries changes each key at most once. -/
theorem get?_foldl_alter {f : Option β → β → β} {l : List (κ × β)}
    (hl : l.Pairwise fun a b => compare a.1 b.1 = .lt) (s : SortedMap κ β) (k : κ) :
    (l.foldl (fun m e => m.alter e.1 fun old => f old e.2) s).get? k =
      (((l.find? fun e => compare k e.1 == .eq).map (·.2)).map (f (s.get? k))).or (s.get? k) := by
  -- the first entry changes the map that the others find, so the induction is for every map
  induction l generalizing s with
  | nil => rfl
  | cons e l ih =>
    rw [List.foldl_cons, ih (List.pairwise_cons.1 hl).2, get?_alter]
    by_cases hk : compare k e.1 = .eq
    · -- the key is that of the first entry, and so of none behind it
      rw [Sorted.find?_eq_none_of_increases Prod.fst hl (by simp [hk]),
        List.find?_cons_of_pos (by simp [hk]), if_pos hk, s.get?_congr hk]
      rfl
    · rw [List.find?_cons_of_neg (by simp [hk]), if_neg hk]

/-- What a merged map holds for a key. -/
@[simp] theorem get?_mergeWith (f : Option β → β → β) (s t : SortedMap κ β) (k : κ) :
    (s.mergeWith f t).get? k = ((t.get? k).map (f (s.get? k))).or (s.get? k) :=
  get?_foldl_alter t.increasing s k

@[simp] theorem mergeWith_empty (f : Option β → β → β) (s : SortedMap κ β) : s.mergeWith f ∅ = s :=
  rfl

section Laws

variable [Std.LawfulEqOrd κ] {f : Option β → β → β} (hnone : ∀ b, f none b = b)

include hnone

/-- Merging into the empty map gives the other one, if values are taken over into it as they are. -/
theorem empty_mergeWith (t : SortedMap κ β) : (∅ : SortedMap κ β).mergeWith f t = t := by
  apply ext_get?
  intro k
  rw [get?_mergeWith, get?_empty, Option.or_none]
  cases t.get? k with
  | none => rfl
  | some b => rw [Option.map_some, hnone]

/-- Merging maps is associative if merging values is. -/
theorem mergeWith_assoc (hf : ∀ old b c, f (some (f old b)) c = f old (f (some b) c))
    (s t u : SortedMap κ β) :
    (s.mergeWith f t).mergeWith f u = s.mergeWith f (t.mergeWith f u) := by
  -- key by key: the values of three maps, of which each may be missing
  apply ext_get?
  intro k
  rw [get?_mergeWith, get?_mergeWith, get?_mergeWith, get?_mergeWith]
  cases u.get? k with
  | none => rfl
  | some c =>
    cases t.get? k with
    | none => simp only [Option.map_none, Option.map_some, Option.none_or, Option.some_or, hnone]
    | some b => simp only [Option.map_some, Option.some_or, hf]

end Laws

end CallLint.SortedMap
