import CallLint.FileSystem
import CallLint.Proofs.Passes
import CallLint.Proofs.Sorted.Map

/-!
# What a write changes

A write gives a new text to the place that its path leads to, and to no other. It makes no
directories, so that all paths lead to the same places before and after.

* `FileSystem.exists_place_of_write`: what is known of a write that succeeds.
* `FileSystem.SameDirectories`, `FileSystem.locate_eq_ok_iff`: what does not change.
-/

namespace CallLint.FileSystem

variable {fs fs' : FileSystem} {p : Path} {text : String} {a b : Address} {part : List Char}

/-! ## Directories -/

/-- A directory is on the way to where a run starts, or on the way to a file. -/
theorem isDirectoryAt_iff :
    fs.isDirectoryAt a = true ↔
      a <+: fs.workingDirectory ∨ ∃ f ∈ fs.files.keys, a <+: f ∧ a.length < f.length := by
  simp [isDirectoryAt, List.any_eq_true]

/-- What is on the way to a directory is a directory. -/
theorem isDirectoryAt_of_prefix (h : fs.isDirectoryAt a = true) (hb : b <+: a) :
    fs.isDirectoryAt b = true := by
  rw [isDirectoryAt_iff] at h ⊢
  rcases h with h | ⟨f, hf, hprefix, hlength⟩
  · exact .inl (hb.trans h)
  · exact .inr ⟨f, hf, hb.trans hprefix, Nat.lt_of_le_of_lt hb.length_le hlength⟩

/-- The same directories, and the same one to start from. -/
structure SameDirectories (fs fs' : FileSystem) : Prop where
  start : fs'.workingDirectory = fs.workingDirectory
  directories : ∀ a, fs'.isDirectoryAt a = fs.isDirectoryAt a

@[refl] theorem SameDirectories.refl (fs : FileSystem) : SameDirectories fs fs :=
  ⟨rfl, fun _ => rfl⟩

theorem SameDirectories.trans {fs'' : FileSystem} (h : SameDirectories fs fs')
    (h' : SameDirectories fs' fs'') : SameDirectories fs fs'' where
  start := h'.start.trans h.start
  directories a := (h'.directories a).trans (h.directories a)

/-- One step on the way of a path leaves from a directory. -/
theorem step_eq_ok_iff :
    fs.step a part = .ok b ↔
      fs.isDirectoryAt a = true ∧ (String.ofList part).utf8ByteSize ≤ Path.maxNameSize ∧
      enter a part = b := by
  unfold step
  split
  · next hdirectory =>
    split
    · next hlong => simp [Nat.not_le.2 hlong]
    · next hshort => simp [hdirectory, Nat.not_lt.1 hshort]
  · next hdirectory => simp [hdirectory]

/-- Each step leads to the same place. -/
theorem SameDirectories.step_eq_ok_iff (h : SameDirectories fs fs') :
    fs'.step a part = .ok b ↔ fs.step a part = .ok b := by
  rw [FileSystem.step_eq_ok_iff, FileSystem.step_eq_ok_iff, h.directories]

/-- Paths lead to the same places. -/
theorem SameDirectories.locate_eq_ok_iff (h : SameDirectories fs fs') :
    fs'.locate p = .ok a ↔ fs.locate p = .ok a := by
  have hway : ∀ (parts : List (List Char)) (b : Address),
      parts.foldlM fs'.step b = .ok a ↔ parts.foldlM fs.step b = .ok a := by
    intro parts
    -- on the parts of the path, from wherever the way has led so far
    induction parts with
    | nil => exact fun _ => Iff.rfl
    | cons part parts ih =>
      intro b
      simp only [foldlM_cons_eq_ok_iff, h.step_eq_ok_iff, ih]
  have hstart : fs'.start p = fs.start p := by rw [FileSystem.start, FileSystem.start, h.start]
  unfold locate
  split
  · rfl
  · rw [hstart]
    exact hway _ _

/-! ## Writing -/

/-- The last part of a path comes after the others. -/
theorem segments_eq_append (cs : List Char) :
    Path.segments cs =
      (Path.segments cs).reverse.tail.reverse ++ [(Path.segments cs).reverse.headD []] := by
  cases hreverse : (Path.segments cs).reverse with
  | nil => exact absurd (List.reverse_eq_nil_iff.1 hreverse) (List.splitOnP_ne_nil _ _)
  | cons last before =>
    rw [← List.reverse_reverse (Path.segments cs), hreverse, List.reverse_cons]
    rfl

/-- An entry that is not there yet lies below the directory that it is entered from. -/
theorem enter_of_not_isKnown (h : isKnown part = false) : enter a part = a ++ [.ofList part] := by
  rw [isKnown, Bool.or_eq_false_iff, decide_eq_false_iff_not] at h
  rw [enter, if_neg (by simp [h.1]), if_neg h.2]

/-- A write that succeeds changes the text at the place that its path leads to. All above that place
are directories, and the place itself is none. -/
theorem exists_place_of_write (h : fs.write p text = .ok fs') :
    ∃ place, fs.locate p = .ok place ∧ fs' = { fs with files := fs.files.insert place text } ∧
      fs.isDirectoryAt place = false ∧
      ∀ b, b <+: place → b ≠ place → fs.isDirectoryAt b = true := by
  unfold write at h
  cases hflaw : p.flaw? with
  | some e =>
    rw [hflaw] at h
    cases h
  | none =>
    rw [hflaw] at h
    rcases bind_eq_ok_iff.1 h with ⟨a, ha, h⟩
    split at h
    · cases h
    · next hslashes =>
      rcases bind_eq_ok_iff.1 h with ⟨place, hplace, h⟩
      rcases step_eq_ok_iff.1 hplace with ⟨hdirectory, -, henter⟩
      -- a path with slashes at its end would have been refused in this directory
      have hnone : (Path.segments p.text.toList).reverse.takeWhile (·.isEmpty) = [] := by
        simpa [hdirectory] using hslashes
      rw [hnone, List.length_nil, List.drop_zero] at ha hplace henter h
      split at h
      · cases h
      · next hfree =>
        rw [Bool.or_eq_true, not_or, Bool.not_eq_true, Bool.not_eq_true] at hfree
        cases h
        refine ⟨place, ?_, rfl, hfree.2, ?_⟩
        · have hway : (Path.segments p.text.toList).foldlM fs.step (fs.start p) = .ok place := by
            rw [segments_eq_append, List.foldlM_append, bind_eq_ok_iff]
            exact ⟨a, ha, foldlM_cons_eq_ok_iff.2 ⟨place, hplace, rfl⟩⟩
          rw [locate, hflaw]
          exact hway
        · -- all above the place is the directory that it is entered from, or above that
          intro b hb hne
          rw [← henter, enter_of_not_isKnown hfree.1] at hb hne
          exact isDirectoryAt_of_prefix hdirectory ((List.prefix_concat_iff.1 hb).resolve_left hne)

/-- No directory appears: all that is above the place was one before. -/
theorem sameDirectories_of_write (h : fs.write p text = .ok fs') : SameDirectories fs fs' := by
  rcases exists_place_of_write h with ⟨place, -, rfl, -, habove⟩
  refine ⟨rfl, fun a => ?_⟩
  rw [Bool.eq_iff_iff, isDirectoryAt_iff, isDirectoryAt_iff]
  constructor
  · rintro (hstart | ⟨f, hf, hprefix, hlength⟩)
    · exact .inl hstart
    · rcases SortedMap.mem_keys_insert.1 hf with rfl | hf
      · -- above the new file
        have hne : a ≠ f := fun heq => absurd hlength (by simp [heq])
        exact isDirectoryAt_iff.1 (habove a hprefix hne)
      · exact .inr ⟨f, hf, hprefix, hlength⟩
  · rintro (hstart | ⟨f, hf, hbelow⟩)
    · exact .inl hstart
    · exact .inr ⟨f, SortedMap.mem_keys_insert.2 (.inr hf), hbelow⟩

/-- Only the place that the path leads to has a new text. -/
theorem textAt?_of_write (h : fs.write p text = .ok fs') {place : Address}
    (hplace : fs.locate p = .ok place) (a : Address) :
    fs'.textAt? a = if a = place then some text else fs.textAt? a := by
  rcases exists_place_of_write h with ⟨place', hplace', rfl, -, -⟩
  obtain rfl : place' = place := Except.ok.inj (hplace'.symm.trans hplace)
  exact SortedMap.get?_insert ..

end CallLint.FileSystem
