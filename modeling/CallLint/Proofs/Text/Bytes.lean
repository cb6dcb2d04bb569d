import CallLint.Text.Offset

/-!
# The bytes of a text

What cutting a text at byte offsets does to its bytes. An offset is a boundary exactly when the text
falls into two parts there, and two boundaries in order leave a part between them.

* `isBoundary_iff`, `slice?_eq_some_iff`: boundaries and slices as parts of the text.
* `exists_slice?`: between two boundaries in order there is always a slice.
* `length_bytes`: the size of a text is the number of its bytes. `byteSize_eq_length_iff`: that of
  its characters, if all of them have one byte.
-/

namespace CallLint.Text

@[simp] theorem bytes_nil : bytes [] = [] := rfl

@[simp] theorem bytes_append (a b : List Char) : bytes (a ++ b) = bytes a ++ bytes b :=
  List.flatMap_append

@[simp] theorem length_bytes (cs : List Char) : (bytes cs).length = byteSize cs := by
  induction cs with
  | nil => rfl
  | cons c cs ih =>
    have hcs : bytes (c :: cs) = String.utf8EncodeChar c ++ bytes cs := List.flatMap_cons
    rw [hcs, List.length_append, String.length_utf8EncodeChar, ih, byteSize]

/-- Different texts have different bytes. -/
theorem bytes_injective {a b : List Char} (h : bytes a = bytes b) : a = b := by
  have hofList : String.ofList a = String.ofList b := by
    apply String.toByteArray_inj.1
    rw [String.toByteArray_ofList, String.toByteArray_ofList, List.utf8Encode, List.utf8Encode]
    exact congrArg List.toByteArray h
  exact String.ofList_injective hofList

@[simp] theorem byteSize_eq_zero_iff {cs : List Char} : byteSize cs = 0 ↔ cs = [] := by
  cases cs with
  | nil => simp [byteSize]
  | cons c cs =>
    have hc := c.utf8Size_pos
    simp only [byteSize, reduceCtorEq, iff_false]
    omega

/-- Every character has a byte at least. -/
theorem length_le_byteSize (cs : List Char) : cs.length ≤ byteSize cs := by
  induction cs with
  | nil => exact Nat.le_refl 0
  | cons c cs ih =>
    have hc := c.utf8Size_pos
    rw [List.length_cons, byteSize]
    omega

/-- A text has as many bytes as characters exactly if each of them has one byte. -/
theorem byteSize_eq_length_iff {cs : List Char} :
    byteSize cs = cs.length ↔ ∀ c ∈ cs, c.utf8Size = 1 := by
  induction cs with
  | nil => simp [byteSize]
  | cons c cs ih =>
    -- neither part can make up for a longer one in the other
    have hc := c.utf8Size_pos
    have hcs := length_le_byteSize cs
    rw [List.forall_mem_cons, ← ih, List.length_cons, byteSize]
    omega

/-! ## Cuts -/

/-- A text is cut into two parts of which the first one has the size of the offset. -/
theorem cut?_eq_some_iff {n : Nat} {cs a b : List Char} :
    cut? n cs = some (a, b) ↔ cs = a ++ b ∧ byteSize a = n := by
  constructor
  · intro h
    exact ⟨eq_append_of_cut? h, byteSize_of_cut? h⟩
  · rintro ⟨rfl, rfl⟩
    exact cut?_byteSize_append a b

/-- An offset is a boundary if the text falls into two parts there. -/
theorem isBoundary_iff {n : Nat} {cs : List Char} :
    isBoundary n cs = true ↔ ∃ a b, cs = a ++ b ∧ byteSize a = n := by
  rw [isBoundary, Option.isSome_iff_exists]
  constructor
  · rintro ⟨⟨a, b⟩, h⟩
    exact ⟨a, b, cut?_eq_some_iff.1 h⟩
  · rintro ⟨a, b, h⟩
    exact ⟨(a, b), cut?_eq_some_iff.2 h⟩

@[simp] theorem isBoundary_byteSize_append (a b : List Char) :
    isBoundary (byteSize a) (a ++ b) = true :=
  isBoundary_iff.2 ⟨a, b, rfl, rfl⟩

@[simp] theorem isBoundary_zero (cs : List Char) : isBoundary 0 cs = true :=
  isBoundary_byteSize_append [] cs

@[simp] theorem isBoundary_byteSize (cs : List Char) : isBoundary (byteSize cs) cs = true := by
  have h := isBoundary_byteSize_append cs []
  rwa [List.append_nil] at h

/-- No boundary is behind the end. -/
theorem le_byteSize_of_isBoundary {n : Nat} {cs : List Char} (h : isBoundary n cs = true) :
    n ≤ byteSize cs := by
  rcases isBoundary_iff.1 h with ⟨a, b, rfl, rfl⟩
  rw [byteSize_append]
  omega

/-- Of two cuts of one text, the one at the smaller offset gives the shorter first part. -/
theorem exists_eq_append {a b c d : List Char} (h : a ++ b = c ++ d)
    (hle : byteSize a ≤ byteSize c) : ∃ e, c = a ++ e ∧ b = e ++ d := by
  rcases List.append_eq_append_iff.1 h with ⟨e, hc, hb⟩ | ⟨e, ha, hd⟩
  · exact ⟨e, hc, hb⟩
  · -- the first part cannot be the longer one, so nothing is between the cuts
    rw [ha, byteSize_append] at hle
    have he : e = [] := byteSize_eq_zero_iff.1 (by omega)
    subst he
    exact ⟨[], by simpa using ha.symm, by simpa using hd.symm⟩

/-- A text is cut at an offset in one way only. -/
theorem append_inj_of_byteSize {a b c d : List Char} (h : a ++ b = c ++ d)
    (hsize : byteSize a = byteSize c) : a = c ∧ b = d := by
  have hcut := cut?_byteSize_append a b
  rw [h, hsize, cut?_byteSize_append, Option.some.injEq, Prod.mk.injEq] at hcut
  exact ⟨hcut.1.symm, hcut.2.symm⟩

/-- Whether an offset up to the end of a text is a boundary does not depend on what follows. -/
theorem isBoundary_append_iff {n : Nat} {a : List Char} (b : List Char) (hle : n ≤ byteSize a) :
    isBoundary n (a ++ b) = true ↔ isBoundary n a = true := by
  rw [isBoundary_iff, isBoundary_iff]
  constructor
  · rintro ⟨c, d, h, rfl⟩
    rcases exists_eq_append h.symm hle with ⟨e, ha, -⟩
    exact ⟨c, e, ha, rfl⟩
  · rintro ⟨c, d, rfl, rfl⟩
    exact ⟨c, d ++ b, List.append_assoc c d b, rfl⟩

@[simp] theorem takeBytes_append (a b : List Char) : takeBytes (byteSize a) (a ++ b) = a := by
  simp [takeBytes, cut?_byteSize_append]

@[simp] theorem dropBytes_append (a b : List Char) : dropBytes (byteSize a) (a ++ b) = b := by
  simp [dropBytes, cut?_byteSize_append]

/-- Cuts behind a text are cuts of what follows it. -/
theorem cut?_append (a b : List Char) (n : Nat) :
    cut? (byteSize a + n) (a ++ b) = (cut? n b).map fun (before, after) =>
      (a ++ before, after) := by
  cases hcut : cut? n b with
  | some parts =>
    rcases cut?_eq_some_iff.1 hcut with ⟨rfl, rfl⟩
    rw [Option.map_some, ← List.append_assoc, ← byteSize_append, cut?_byteSize_append]
  | none =>
    cases hwhole : cut? (byteSize a + n) (a ++ b) with
    | none => rfl
    | some parts =>
      -- a cut of the whole behind `a` would be one of `b`
      rcases cut?_eq_some_iff.1 hwhole with ⟨happend, hsize⟩
      rcases exists_eq_append happend (by omega) with ⟨e, he, hb⟩
      rw [he, byteSize_append] at hsize
      have hsome : cut? n b = some (e, parts.2) := cut?_eq_some_iff.2 ⟨hb, by omega⟩
      rw [hcut] at hsome
      cases hsome

@[simp] theorem takeBytes_append_right (a b : List Char) (n : Nat) :
    takeBytes (byteSize a + n) (a ++ b) = a ++ takeBytes n b := by
  rw [takeBytes, takeBytes, cut?_append]
  cases cut? n b <;> rfl

@[simp] theorem dropBytes_append_right (a b : List Char) (n : Nat) :
    dropBytes (byteSize a + n) (a ++ b) = dropBytes n b := by
  rw [dropBytes, dropBytes, cut?_append]
  cases cut? n b <;> rfl

@[simp] theorem takeBytes_zero (cs : List Char) : takeBytes 0 cs = [] := takeBytes_append [] cs

@[simp] theorem dropBytes_zero (cs : List Char) : dropBytes 0 cs = cs := dropBytes_append [] cs

/-! ## Slices -/

/-- Two boundaries in order divide a text into three parts. -/
theorem exists_parts {first last : Nat} {cs : List Char} (hle : first ≤ last)
    (hfirst : isBoundary first cs = true) (hlast : isBoundary last cs = true) :
    ∃ a b c, cs = a ++ (b ++ c) ∧ byteSize a = first ∧ first + byteSize b = last := by
  rcases isBoundary_iff.1 hfirst with ⟨a, r, hr, rfl⟩
  rcases isBoundary_iff.1 hlast with ⟨p, c, hc, rfl⟩
  rcases exists_eq_append (hr.symm.trans hc) hle with ⟨b, rfl, rfl⟩
  exact ⟨a, b, c, hr, rfl, (byteSize_append a b).symm⟩

/-- A slice is the part of the text between two offsets. -/
theorem slice?_eq_some_iff {first last : Nat} {cs middle : List Char} :
    slice? first last cs = some middle ↔
      ∃ a b, cs = a ++ (middle ++ b) ∧ byteSize a = first ∧ first + byteSize middle = last := by
  constructor
  · intro h
    unfold slice? at h
    split at h
    · -- one cut at the start of the slice, and one at its end in what is left
      rcases Option.bind_eq_some_iff.1 h with ⟨⟨a, rest⟩, hcut, h⟩
      rcases Option.bind_eq_some_iff.1 h with ⟨⟨m, b⟩, hcut', h⟩
      obtain rfl : m = middle := Option.some.inj h
      rcases cut?_eq_some_iff.1 hcut with ⟨rfl, ha⟩
      rcases cut?_eq_some_iff.1 hcut' with ⟨rfl, hm⟩
      exact ⟨a, b, rfl, ha, by omega⟩
    · cases h
  · rintro ⟨a, b, rfl, rfl, rfl⟩
    have hsub : byteSize a + byteSize middle - byteSize a = byteSize middle := by omega
    simp [slice?, cut?_byteSize_append, hsub]

/-- Two boundaries in order have a slice between them. -/
theorem exists_slice? {first last : Nat} {cs : List Char} (hle : first ≤ last)
    (hfirst : isBoundary first cs = true) (hlast : isBoundary last cs = true) :
    ∃ middle, slice? first last cs = some middle := by
  rcases exists_parts hle hfirst hlast with ⟨a, b, c, hcs, ha, hb⟩
  exact ⟨b, slice?_eq_some_iff.2 ⟨a, c, hcs, ha, hb⟩⟩

end CallLint.Text
