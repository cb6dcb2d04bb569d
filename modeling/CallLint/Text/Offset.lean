/-!
# Byte offsets

Positions in a text are offsets into its UTF-8 form. A text is a list of characters here; an offset
falls between two characters or inside one, and a text can be cut only between them.

* `cut?_byteSize_append`: cutting after a text gives back both parts.
* `eq_append_of_cut?`, `byteSize_of_cut?`: a cut loses nothing, and its first part has the size
  asked for.
-/

namespace CallLint.Text

/-- The number of bytes of a text. -/
def byteSize : List Char → Nat
  | [] => 0
  | c :: cs => c.utf8Size + byteSize cs

/-- The bytes of a text. -/
def bytes (cs : List Char) : List UInt8 := cs.flatMap String.utf8EncodeChar

/-- The text before and after a byte offset; none if the offset is past the end or inside a
character. -/
def cut? : Nat → List Char → Option (List Char × List Char)
  | 0, cs => some ([], cs)
  | _ + 1, [] => none
  | n + 1, c :: cs =>
    if n + 1 < c.utf8Size then none
    else (cut? (n + 1 - c.utf8Size) cs).map fun (before, after) => (c :: before, after)

/-- Whether a byte offset lies at the start, at the end or between two characters. -/
def isBoundary (n : Nat) (cs : List Char) : Bool := (cut? n cs).isSome

/-- The text between two byte offsets; none if they are not in order or a cut is not possible. -/
def slice? (first last : Nat) (cs : List Char) : Option (List Char) :=
  if first ≤ last then do
    let (_, rest) ← cut? first cs
    let (middle, _) ← cut? (last - first) rest
    return middle
  else none

/-- The text before a byte offset, all of it if a cut is not possible. -/
def takeBytes (n : Nat) (cs : List Char) : List Char := ((cut? n cs).map (·.1)).getD cs

/-- The text after a byte offset, nothing if a cut is not possible. -/
def dropBytes (n : Nat) (cs : List Char) : List Char := ((cut? n cs).map (·.2)).getD []

/-- The number of bytes of a string. -/
def size (s : String) : Nat := byteSize s.toList

/-- The sizes of two texts add up. -/
@[simp] theorem byteSize_append (a b : List Char) :
    byteSize (a ++ b) = byteSize a + byteSize b := by
  induction a with
  | nil => simp [byteSize]
  | cons c a ih => simp [byteSize, ih, Nat.add_assoc]

/-- Nothing is in front of the first byte. -/
@[simp] theorem cut?_zero (cs : List Char) : cut? 0 cs = some ([], cs) := by cases cs <;> rfl

/-- A text is cut where a part of it ends. -/
@[simp] theorem cut?_byteSize_append (a b : List Char) :
    cut? (byteSize a) (a ++ b) = some (a, b) := by
  induction a with
  | nil => simp [byteSize]
  | cons c a ih =>
    have hc := c.utf8Size_pos
    obtain ⟨n, hn⟩ : ∃ n, c.utf8Size + byteSize a = n + 1 := ⟨c.utf8Size + byteSize a - 1, by omega⟩
    have hle : ¬ n + 1 < c.utf8Size := by omega
    have hsub : n + 1 - c.utf8Size = byteSize a := by omega
    simp [byteSize, hn, cut?, hle, hsub, ih]

/-- A cut loses nothing. -/
theorem eq_append_of_cut? {n : Nat} {cs a b : List Char} (h : cut? n cs = some (a, b)) :
    cs = a ++ b := by
  induction cs generalizing n a b with
  | nil => cases n <;> simp_all [cut?]
  | cons c cs ih =>
    cases n with
    | zero => simp_all
    | succ n =>
      simp only [cut?] at h
      split at h
      · cases h
      · obtain ⟨⟨x, y⟩, hxy, hab⟩ := Option.map_eq_some_iff.1 h
        cases hab
        simpa using ih hxy

/-- What is cut off has the size that was asked for. -/
theorem byteSize_of_cut? {n : Nat} {cs a b : List Char} (h : cut? n cs = some (a, b)) :
    byteSize a = n := by
  induction cs generalizing n a b with
  | nil => cases n <;> simp_all [cut?, byteSize]
  | cons c cs ih =>
    cases n with
    | zero => simp only [cut?_zero, Option.some.injEq, Prod.mk.injEq] at h; simp [← h.1, byteSize]
    | succ n =>
      simp only [cut?] at h
      split at h
      · cases h
      · obtain ⟨⟨x, y⟩, hxy, hab⟩ := Option.map_eq_some_iff.1 h
        cases hab
        simp only [byteSize, ih hxy]
        omega

end CallLint.Text
