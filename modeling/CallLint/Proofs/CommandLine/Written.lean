import CallLint.CommandLine.Run
import CallLint.Proofs.FileSystem.Writing

/-!
# Writing new texts

New texts are written one after the other. The first one that cannot be written is the last one that
is tried, and those before it stay written. A place has the text of the last one that leads there.

* `Run.textFor?`: the text that some entries give to a place.
* `Run.Wrote`: what the files are once some entries have been written. Each entry keeps this up.
* `Run.exists_wrote_writeAll`: which entries are written.
-/

namespace CallLint

/-- What a path leads to, as a test and as a fact. -/
@[simp] theorem FileSystem.leadsTo_eq_iff {fs : FileSystem} {p : Path} {a : Address} :
    fs.leadsTo (· = a) p = true ↔ fs.locate p = .ok a := by
  unfold leadsTo
  cases fs.locate p <;> simp

namespace Run

open FileSystem (SameDirectories)

/-- The text that some entries give to a place: that of the last one that leads there. -/
def textFor? (fs : FileSystem) (entries : List (Path × String)) (a : Address) : Option String :=
  (entries.reverse.find? fun e => fs.leadsTo (· = a) e.1).map (·.2)

/-- One more entry counts before all others. -/
theorem textFor?_append_singleton (fs : FileSystem) (entries : List (Path × String))
    (e : Path × String) (a : Address) :
    textFor? fs (entries ++ [e]) a =
      if fs.leadsTo (· = a) e.1 then some e.2 else textFor? fs entries a := by
  rw [textFor?, textFor?, List.reverse_append, List.reverse_singleton, List.singleton_append,
    List.find?_cons]
  cases fs.leadsTo (· = a) e.1 <;> rfl

/-- No entry leads to a place that gets no text. -/
theorem textFor?_eq_none_iff {fs : FileSystem} {entries : List (Path × String)} {a : Address} :
    textFor? fs entries a = none ↔ ∀ e ∈ entries, fs.locate e.1 ≠ .ok a := by
  simp [textFor?, List.find?_eq_none]

/-- What the files are once some entries have been written. -/
structure Wrote (fs : FileSystem) (done : List (Path × String)) (fs' : FileSystem) : Prop where
  directories : SameDirectories fs fs'
  located : ∀ e ∈ done, ∃ a, fs.locate e.1 = .ok a
  texts : ∀ a, fs'.textAt? a = (textFor? fs done a).or (fs.textAt? a)

variable {fs fs' : FileSystem} {done : List (Path × String)}

/-- Before anything has been written. -/
theorem wrote_nil (fs : FileSystem) : Wrote fs [] fs := ⟨.refl fs, by simp, fun _ => rfl⟩

/-- One more entry. Its path leads where it led before all of them. -/
theorem Wrote.write (h : Wrote fs done fs') {e : Path × String} {fs'' : FileSystem}
    (hwrite : fs'.write e.1 e.2 = .ok fs'') : Wrote fs (done ++ [e]) fs'' := by
  rcases FileSystem.exists_place_of_write hwrite with ⟨place, hplace, -⟩
  have hlocate : fs.locate e.1 = .ok place := h.directories.locate_eq_ok_iff.1 hplace
  refine ⟨h.directories.trans (FileSystem.sameDirectories_of_write hwrite), ?_, fun a => ?_⟩
  · rw [List.forall_mem_append]
    exact ⟨h.located, by simpa using ⟨place, hlocate⟩⟩
  · rw [FileSystem.textAt?_of_write hwrite hplace, textFor?_append_singleton, h.texts]
    by_cases ha : a = place
    · -- the entry that has just been written counts
      rw [if_pos ha, if_pos (FileSystem.leadsTo_eq_iff.2 (ha ▸ hlocate)), Option.some_or]
    · have hother : ¬ fs.leadsTo (· = a) e.1 = true := by
        rw [FileSystem.leadsTo_eq_iff, hlocate, Except.ok.injEq]
        exact fun heq => ha heq.symm
      rw [if_neg ha, if_neg hother]

/-- Which entries are left out, and why: none of them, or all from the first one that cannot be
written. -/
inductive LeftOut (fs : FileSystem) : List (Path × String) → Option RunFailure → Prop
  | nothing : LeftOut fs [] none
  | unwritable {e : Path × String} {later : List (Path × String)} {cause : AccessError}
      (h : fs.write e.1 e.2 = .error cause) : LeftOut fs (e :: later) (some (.unwritable e.1 cause))

/-- The first entries are written and the others are left out, on top of those that have been
written. -/
theorem Wrote.writeAll (h : Wrote fs done fs') (entries : List (Path × String)) :
    ∃ more rest, entries = more ++ rest ∧ Wrote fs (done ++ more) (writeAll fs' entries).1 ∧
      LeftOut (writeAll fs' entries).1 rest (writeAll fs' entries).2 := by
  -- `done` grows with the files, so that the invariant is always about the files at the start
  induction entries generalizing done fs' with
  | nil => exact ⟨[], [], rfl, by rwa [List.append_nil, Run.writeAll], .nothing⟩
  | cons e entries ih =>
    rw [Run.writeAll]
    cases hwrite : fs'.write e.1 e.2 with
    | error cause => exact ⟨[], e :: entries, rfl, by simpa using h, .unwritable hwrite⟩
    | ok fs'' =>
      rcases ih (h.write hwrite) with ⟨more, rest, rfl, hwrote, hrest⟩
      exact ⟨e :: more, rest, rfl, by simpa using hwrote, hrest⟩

/-- What is left of entries after they have been written one after the other. -/
theorem exists_wrote_writeAll (fs : FileSystem) (entries : List (Path × String)) :
    ∃ done rest, entries = done ++ rest ∧ Wrote fs done (writeAll fs entries).1 ∧
      LeftOut (writeAll fs entries).1 rest (writeAll fs entries).2 :=
  (wrote_nil fs).writeAll entries

end Run

end CallLint
