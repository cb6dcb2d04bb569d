import CallLint.CommandLine.Input
import CallLint.Proofs.Passes

/-!
# Loading units

The units of a run are those that its unit files hold, each with the path that it is placed at. A
run has no units if one of the causes is there that are listed here, and has units otherwise.

* `Input.mem_of_units`: which units are loaded.
* `Input.Unloadable`: the causes. `Input.exists_units_iff`: there are no others.
-/

namespace CallLint.Input

variable {fs : FileSystem} {a : Arguments} {file : Path} {u v : SourceUnit}
  {units : List SourceUnit}

/-- A file that fits one of the patterns of a run. -/
def IsUnitFile (fs : FileSystem) (a : Arguments) (file : Path) : Prop :=
  ∃ patterns, a.patterns.mapM pattern = .ok patterns ∧ file ∈ FilePattern.files fs patterns

/-- A file holds a unit, as it is written there. -/
def Holds (fs : FileSystem) (file : Path) (u : SourceUnit) : Prop :=
  ∃ text units, fs.read file = .ok text ∧ decodeUnits? text = some units ∧ u ∈ units

/-! ## One unit -/

/-- A unit that has been placed has the path of its place. -/
theorem path_of_placeUnit (h : placeUnit fs file u = .ok v) :
    v.path = placedPath fs file u.path := by
  unfold placeUnit at h
  dsimp only at h
  split at h
  · cases h
    rfl
  · split at h
    · cases h
      rfl
    · cases h

/-- A unit can be placed if it has a text, or if there is one at its path. -/
theorem exists_placeUnit_iff :
    (∃ v, placeUnit fs file u = .ok v) ↔
      u.source ≠ "" ∨ ∃ text, fs.read (placedPath fs file u.path) = .ok text := by
  unfold placeUnit
  dsimp only
  by_cases hsource : u.source = ""
  · cases fs.read (placedPath fs file u.path) <;> simp [hsource, pure, Except.pure]
  · simp [hsource, pure, Except.pure]

/-! ## One file -/

/-- The units of a file are those that are written there, each at its place. -/
theorem unitsOf_eq_ok_iff :
    unitsOf fs file = .ok units ↔
      ∃ text written, fs.read file = .ok text ∧ decodeUnits? text = some written ∧
        written.mapM (placeUnit fs file) = .ok units := by
  unfold unitsOf
  cases fs.read file with
  | error cause => simp
  | ok text =>
    cases hwritten : decodeUnits? text with
    | none => simp [hwritten]
    | some written => simp [hwritten]

/-- Which units a file is read as. -/
theorem mem_of_unitsOf (h : unitsOf fs file = .ok units) :
    v ∈ units ↔ ∃ u, Holds fs file u ∧ placeUnit fs file u = .ok v := by
  rcases unitsOf_eq_ok_iff.1 h with ⟨text, written, htext, hwritten, hplaced⟩
  rw [mem_of_mapM_eq_ok hplaced]
  constructor
  · rintro ⟨u, hu, hv⟩
    exact ⟨u, ⟨text, written, htext, hwritten, hu⟩, hv⟩
  · -- a file has one text, and this text one reading
    rintro ⟨u, ⟨text', written', htext', hwritten', hu⟩, hv⟩
    cases htext.symm.trans htext'
    cases hwritten.symm.trans hwritten'
    exact ⟨u, hu, hv⟩

/-- Each unit that a file holds has been placed. -/
theorem exists_placed (h : unitsOf fs file = .ok units) (hu : Holds fs file u) :
    ∃ v ∈ units, placeUnit fs file u = .ok v := by
  rcases unitsOf_eq_ok_iff.1 h with ⟨text, written, htext, hwritten, hplaced⟩
  rcases hu with ⟨text', written', htext', hwritten', hu⟩
  cases htext.symm.trans htext'
  cases hwritten.symm.trans hwritten'
  rcases exists_mapM_eq_ok_iff.1 ⟨units, hplaced⟩ u hu with ⟨v, hv⟩
  exact ⟨v, (mem_of_mapM_eq_ok hplaced).2 ⟨u, hu, hv⟩, hv⟩

/-! ## All files -/

@[simp] theorem pattern_eq_ok_iff {s : String} {p : FilePattern} :
    pattern s = .ok p ↔ FilePattern.parse s = .ok p := by
  unfold pattern
  cases FilePattern.parse s <;> simp

/-- The units of a run are those of all its files, if there are some. -/
theorem units_eq_ok_iff :
    Input.units fs a = .ok units ↔
      a.patterns ≠ [] ∧ ∃ patterns loaded, a.patterns.mapM pattern = .ok patterns ∧
        (FilePattern.files fs patterns).mapM (unitsOf fs) = .ok loaded ∧ loaded.flatten ≠ [] ∧
        loaded.flatten = units := by
  unfold Input.units
  by_cases hpatterns : a.patterns = []
  · rw [if_pos (by simp [hpatterns])]
    simp [hpatterns, bind, Except.bind]
  · rw [if_neg (by simpa using hpatterns)]
    constructor
    · intro h
      rcases bind_eq_ok_iff.1 h with ⟨patterns, hparsed, h⟩
      rcases bind_eq_ok_iff.1 h with ⟨loaded, hloaded, h⟩
      split at h
      · cases h
      · next hsome =>
        cases h
        exact ⟨hpatterns, patterns, loaded, hparsed, hloaded, by simpa using hsome, rfl⟩
    · rintro ⟨-, patterns, loaded, hparsed, hloaded, hsome, rfl⟩
      refine bind_eq_ok_iff.2 ⟨patterns, hparsed, bind_eq_ok_iff.2 ⟨loaded, hloaded, ?_⟩⟩
      rw [if_neg (by simpa using hsome)]
      rfl

/-- The units of a run are those that its unit files hold, each at its place. -/
theorem mem_of_units (h : Input.units fs a = .ok units) :
    v ∈ units ↔ ∃ file u, IsUnitFile fs a file ∧ Holds fs file u ∧ placeUnit fs file u = .ok v := by
  rcases units_eq_ok_iff.1 h with ⟨-, patterns, loaded, hparsed, hloaded, -, rfl⟩
  rw [List.mem_flatten]
  constructor
  · rintro ⟨own, hown, hv⟩
    rcases (mem_of_mapM_eq_ok hloaded).1 hown with ⟨file, hfile, hunits⟩
    rcases (mem_of_unitsOf hunits).1 hv with ⟨u, hu, hplaced⟩
    exact ⟨file, u, ⟨patterns, hparsed, hfile⟩, hu, hplaced⟩
  · rintro ⟨file, u, ⟨patterns', hparsed', hfile⟩, hu, hplaced⟩
    cases hparsed.symm.trans hparsed'
    rcases exists_mapM_eq_ok_iff.1 ⟨loaded, hloaded⟩ file hfile with ⟨own, hown⟩
    exact ⟨own, (mem_of_mapM_eq_ok hloaded).2 ⟨file, hfile, hown⟩,
      (mem_of_unitsOf hown).2 ⟨u, hu, hplaced⟩⟩

/-! ## Why there are no units -/

/-- Why a run has no units. -/
inductive Unloadable (fs : FileSystem) (a : Arguments) : Prop
  | noPatterns (h : a.patterns = [])
  | badPattern {s : String} {cause : PatternError} (hs : s ∈ a.patterns)
      (h : FilePattern.parse s = .error cause)
  | unreadable {file : Path} {cause : AccessError} (hfile : IsUnitFile fs a file)
      (h : fs.read file = .error cause)
  | malformed {file : Path} {text : String} (hfile : IsUnitFile fs a file)
      (htext : fs.read file = .ok text) (h : decodeUnits? text = none)
  | noSource {file : Path} {u : SourceUnit} {cause : AccessError} (hfile : IsUnitFile fs a file)
      (hu : Holds fs file u) (hempty : u.source = "")
      (h : fs.read (placedPath fs file u.path) = .error cause)
  | noUnits (h : ∀ file u, IsUnitFile fs a file → ¬ Holds fs file u)

/-- The units of a file that can be loaded. -/
theorem exists_unitsOf (hfile : IsUnitFile fs a file) (h : ¬ Unloadable fs a) :
    ∃ units, unitsOf fs file = .ok units := by
  cases htext : fs.read file with
  | error cause => exact absurd (.unreadable hfile htext) h
  | ok text =>
    cases hwritten : decodeUnits? text with
    | none => exact absurd (.malformed hfile htext hwritten) h
    | some written =>
      have hplaced : ∀ u ∈ written, ∃ v, placeUnit fs file u = .ok v := by
        intro u hu
        rw [exists_placeUnit_iff]
        by_cases hempty : u.source = ""
        · -- without a text of its own a unit has that at its path
          cases hsource : fs.read (placedPath fs file u.path) with
          | error cause =>
            exact absurd (.noSource hfile ⟨text, written, htext, hwritten, hu⟩ hempty hsource) h
          | ok source => exact .inr ⟨source, rfl⟩
        · exact .inl hempty
      rcases exists_mapM_eq_ok_iff.2 hplaced with ⟨units, hunits⟩
      exact ⟨units, unitsOf_eq_ok_iff.2 ⟨text, written, htext, hwritten, hunits⟩⟩

/-- Without any of these causes there are units. -/
theorem exists_units (h : ¬ Unloadable fs a) : ∃ units, Input.units fs a = .ok units := by
  have hpatterns : ∀ s ∈ a.patterns, ∃ p, pattern s = .ok p := by
    intro s hs
    cases hparse : FilePattern.parse s with
    | error cause => exact absurd (.badPattern hs hparse) h
    | ok p => exact ⟨p, pattern_eq_ok_iff.2 hparse⟩
  rcases exists_mapM_eq_ok_iff.2 hpatterns with ⟨patterns, hparsed⟩
  have hfiles : ∀ file ∈ FilePattern.files fs patterns, ∃ units, unitsOf fs file = .ok units :=
    fun file hfile => exists_unitsOf ⟨patterns, hparsed, hfile⟩ h
  rcases exists_mapM_eq_ok_iff.2 hfiles with ⟨loaded, hloaded⟩
  refine ⟨loaded.flatten, units_eq_ok_iff.2 ⟨fun hnone => h (.noPatterns hnone), patterns, loaded,
    hparsed, hloaded, fun hnone => h (.noUnits ?_), rfl⟩⟩
  -- a unit in a file would be among the loaded ones
  intro file u ⟨patterns', hparsed', hfile⟩ hu
  cases hparsed.symm.trans hparsed'
  rcases hfiles file hfile with ⟨own, hown⟩
  rcases exists_placed hown hu with ⟨v, hv, -⟩
  have hmem : v ∈ loaded.flatten :=
    List.mem_flatten.2 ⟨own, (mem_of_mapM_eq_ok hloaded).2 ⟨file, hfile, hown⟩, hv⟩
  rw [hnone] at hmem
  cases hmem

/-- If a run has units, each of its files has been read. -/
theorem exists_unitsOf_of_units (h : Input.units fs a = .ok units) (hfile : IsUnitFile fs a file) :
    ∃ own, unitsOf fs file = .ok own := by
  rcases units_eq_ok_iff.1 h with ⟨-, patterns, loaded, hparsed, hloaded, -, -⟩
  rcases hfile with ⟨patterns', hparsed', hfile⟩
  cases hparsed.symm.trans hparsed'
  exact exists_mapM_eq_ok_iff.1 ⟨loaded, hloaded⟩ file hfile

/-- If a run has units, each unit in its files is one of them. -/
theorem exists_loaded (h : Input.units fs a = .ok units) (hfile : IsUnitFile fs a file)
    (hu : Holds fs file u) : ∃ v ∈ units, placeUnit fs file u = .ok v := by
  rcases exists_unitsOf_of_units h hfile with ⟨own, hown⟩
  rcases exists_placed hown hu with ⟨v, -, hv⟩
  exact ⟨v, (mem_of_units h).2 ⟨file, u, hfile, hu, hv⟩, hv⟩

/-- With any of these causes there are no units. -/
theorem not_unloadable (h : Input.units fs a = .ok units) : ¬ Unloadable fs a := by
  rcases units_eq_ok_iff.1 h with ⟨hpatterns, patterns, loaded, hparsed, hloaded, hsome, hunits⟩
  -- each cause stands against what has been read
  intro hcause
  cases hcause with
  | noPatterns hnone => exact hpatterns hnone
  | badPattern hs herror =>
    rcases exists_mapM_eq_ok_iff.1 ⟨patterns, hparsed⟩ _ hs with ⟨p, hp⟩
    cases herror.symm.trans (pattern_eq_ok_iff.1 hp)
  | unreadable hfile herror =>
    rcases exists_unitsOf_of_units h hfile with ⟨own, hown⟩
    rcases unitsOf_eq_ok_iff.1 hown with ⟨text, -, htext, -, -⟩
    cases herror.symm.trans htext
  | malformed hfile htext hnone =>
    rcases exists_unitsOf_of_units h hfile with ⟨own, hown⟩
    rcases unitsOf_eq_ok_iff.1 hown with ⟨text, written, htext', hwritten, -⟩
    cases htext.symm.trans htext'
    cases hnone.symm.trans hwritten
  | noSource hfile hu hempty herror =>
    rcases exists_loaded h hfile hu with ⟨v, -, hv⟩
    rcases exists_placeUnit_iff.1 ⟨v, hv⟩ with hsource | ⟨text, htext⟩
    · exact hsource hempty
    · cases herror.symm.trans htext
  | noUnits hnone =>
    rw [hunits] at hsome
    rcases List.exists_mem_of_ne_nil _ hsome with ⟨v, hv⟩
    rcases (mem_of_units h).1 hv with ⟨file, u, hfile, hu, -⟩
    exact hnone file u hfile hu

/-- There are units if and only if none of these causes is there. -/
theorem exists_units_iff : (∃ units, Input.units fs a = .ok units) ↔ ¬ Unloadable fs a :=
  ⟨fun ⟨_, h⟩ => not_unloadable h, exists_units⟩

end CallLint.Input
