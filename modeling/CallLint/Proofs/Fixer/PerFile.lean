import CallLint.Proofs.Fixer.Accounting

/-!
# File by file

A fixer goes through the files of its fixes. Where the units have different paths, every unit gets
its own fixes and no others, whatever the order of the files.

* `Fixer.toList_gathered_perm`: the fixes by file are the fixes of the units that have some.
* `Fixer.outputs_applyAll`, `Fixer.failed_applyAll`: what becomes of the fixes, said unit by unit.
-/

namespace CallLint

/-- Units with paths that stand for different places. -/
def SourceUnit.apart (units : List SourceUnit) : Prop :=
  units.Pairwise fun u v => u.path.same v.path = false

namespace Fixer

/-! ## Units with different paths -/

/-- Only one unit has a path. -/
theorem eq_of_same {units : List SourceUnit} (h : SourceUnit.apart units) {u v : SourceUnit}
    (hu : u ∈ units) (hv : v ∈ units) (hsame : u.path.same v.path = true) : u = v := by
  -- of two units in the list, either one may be the first
  have hpairs : units.Pairwise fun u v => u.path.same v.path = true → u = v := by
    refine h.imp fun {u v} hdiffer hsame => ?_
    rw [hdiffer] at hsame
    cases hsame
  have hswap : units.Pairwise fun u v => v.path.same u.path = true → v = u := by
    refine h.imp fun {u v} hdiffer hsame => ?_
    have hback : u.path.same v.path = true := by simpa [Path.same, eq_comm] using hsame
    rw [hdiffer] at hback
    cases hback
  exact hpairs.forall_of_forall_of_flip (fun _ _ _ => rfl) hswap hu hv hsame

/-- So a unit is found by its path. -/
theorem find?_same {units : List SourceUnit} (h : SourceUnit.apart units) {u : SourceUnit}
    (hu : u ∈ units) {p : Path} (hp : u.path.same p = true) :
    units.find? (·.path.same p) = some u := by
  cases hfind : units.find? (·.path.same p) with
  | none => exact absurd hp (by simpa using List.find?_eq_none.1 hfind u hu)
  | some v =>
    have hv : v.path.same p = true := by simpa using List.find?_some hfind
    have hsame : v.path.same u.path = true := by
      simp only [Path.same, decide_eq_true_eq] at hp hv ⊢
      rw [hv, hp]
    rw [eq_of_same h (List.mem_of_find?_eq_some hfind) hu hsame]

variable {f : Fixer} {units : List SourceUnit} {own : SourceUnit → List Fix}

/-- Among the fixes of all units, those for the path of a unit are its own ones. -/
theorem filter_own (h : SourceUnit.apart units)
    (hown : ∀ u ∈ units, ∀ fix ∈ own u, fix.file = u.path) {u : SourceUnit} (hu : u ∈ units) :
    (units.flatMap own).filter (·.file.same u.path) = own u := by
  have hothers : ∀ l : List SourceUnit, (∀ v ∈ l, v ∈ units) →
      (∀ v ∈ l, v.path.same u.path = false) →
      (l.flatMap own).filter (·.file.same u.path) = [] := by
    intro l hl hdiffer
    rw [List.filter_eq_nil_iff]
    intro fix hfix
    rcases List.mem_flatMap.1 hfix with ⟨v, hv, hfix⟩
    rw [hown v (hl v hv) fix hfix, hdiffer v hv]
    exact Bool.false_ne_true
  have hself : (own u).filter (·.file.same u.path) = own u := by
    rw [List.filter_eq_self]
    intro fix hfix
    rw [hown u hu fix hfix]
    simp [Path.same]
  rcases List.append_of_mem hu with ⟨before, after, hsplit⟩
  -- the units before and after this one have other paths
  have hpairs := h
  rw [SourceUnit.apart, hsplit, List.pairwise_append, List.pairwise_cons] at hpairs
  rcases hpairs with ⟨-, ⟨hafter, -⟩, hbefore⟩
  have hfirst := hothers before (fun v hv => by simp [hsplit, hv])
    fun v hv => hbefore v hv u List.mem_cons_self
  have hlast := hothers after (fun v hv => by simp [hsplit, hv]) fun v hv => by
    have hdiffer := hafter v hv
    simpa [Path.same, eq_comm] using hdiffer
  rw [hsplit, List.flatMap_append, List.flatMap_cons, List.filter_append, List.filter_append,
    hfirst, hself, hlast, List.nil_append, List.append_nil]

/-- The paths of the units are those of their fixes, and no two of them stand for one place. -/
theorem spelledAlike_own (h : SourceUnit.apart units)
    (hown : ∀ u ∈ units, ∀ fix ∈ own u, fix.file = u.path) :
    Path.spelledAlike ((units.flatMap own).map (·.file)) := by
  have hpath : ∀ p ∈ (units.flatMap own).map (·.file), ∃ u ∈ units, p = u.path := by
    intro p hp
    rcases List.mem_map.1 hp with ⟨fix, hfix, rfl⟩
    rcases List.mem_flatMap.1 hfix with ⟨u, hu, hfix⟩
    exact ⟨u, hu, hown u hu fix hfix⟩
  intro p hp q hq hsame
  rcases hpath p hp with ⟨u, hu, rfl⟩
  rcases hpath q hq with ⟨v, hv, rfl⟩
  rw [eq_of_same h hu hv hsame]

/-- The fixes by file are those of units that have some. -/
theorem mem_gathered_iff (h : SourceUnit.apart units)
    (hown : ∀ u ∈ units, ∀ fix ∈ own u, fix.file = u.path) {p : Path} {fixes : List Fix} :
    (p, fixes) ∈ ((units.flatMap own).foldl gather ∅).toList ↔
      ∃ u ∈ units, own u ≠ [] ∧ u.path = p ∧ own u = fixes := by
  rw [mem_gathered_iff_of_spelledAlike (spelledAlike_own h hown)]
  constructor
  · rintro ⟨⟨fix, hfix, rfl⟩, rfl⟩
    rcases List.mem_flatMap.1 hfix with ⟨u, hu, hfix⟩
    rw [hown u hu fix hfix]
    exact ⟨u, hu, List.ne_nil_of_mem hfix, rfl, (filter_own h hown hu).symm⟩
  · rintro ⟨u, hu, hsome, rfl, rfl⟩
    rcases List.exists_mem_of_ne_nil _ hsome with ⟨fix, hfix⟩
    exact ⟨⟨fix, List.mem_flatMap.2 ⟨u, hu, hfix⟩, hown u hu fix hfix⟩, filter_own h hown hu⟩

/-- The fixes by file are the fixes of the units that have some, in some order. -/
theorem toList_gathered_perm (h : SourceUnit.apart units)
    (hown : ∀ u ∈ units, ∀ fix ∈ own u, fix.file = u.path) :
    ((units.flatMap own).foldl gather ∅).toList.Perm
      ((units.filter fun u => !(own u).isEmpty).map fun u => (u.path, own u)) := by
  -- both lists have the same members, and none of them twice
  have hnodup : ((units.filter fun u => !(own u).isEmpty).map fun u => (u.path, own u)).Nodup := by
    rw [List.Nodup, List.pairwise_map]
    refine (List.Pairwise.filter _ h).imp fun {u v} hdiffer huv => ?_
    rw [Path.same, (Prod.mk.inj huv).1] at hdiffer
    simp at hdiffer
  rw [List.perm_ext_iff_of_nodup (SortedMap.nodup_toList _) hnodup]
  rintro ⟨p, fixes⟩
  rw [mem_gathered_iff h hown]
  simp [List.mem_map, List.mem_filter, and_assoc]

/-! ## Unit by unit -/

/-- Every unit gets the text that its own fixes write, if that is a new one. -/
theorem outputs_applyAll (hmode : f.mode ≠ .showOnly) (h : SourceUnit.apart units)
    (hown : ∀ u ∈ units, ∀ fix ∈ own u, fix.file = u.path)
    (hbyFile : f.byFile = (units.flatMap own).foldl gather ∅) {u : SourceUnit} (hu : u ∈ units) :
    (f.applyAll units).outputs.get? u.path =
      if f.written u.source (own u) = u.source then none
      else some (f.written u.source (own u)) := by
  have htexts := texts_applyAll f units
  split
  · next hsame =>
    rw [Option.eq_none_iff_forall_ne_some]
    intro new hget
    rcases SortedMap.exists_mem_of_get? hget with ⟨p, hp, hnew⟩
    rcases htexts.exists_rewrite hnew with ⟨fixes, v, hentry, hrewrite⟩
    rcases rewrite?_eq_some_iff.1 hrewrite with ⟨-, -, hunit, hwritten, hdiffers⟩
    rw [hbyFile, mem_gathered_iff h hown] at hentry
    rcases hentry with ⟨w, hw, -, rfl, rfl⟩
    -- a unit with this path is this unit
    obtain rfl : u = w := eq_of_same h hu hw (decide_eq_true (Path.compare_eq_iff.1 hp))
    rw [find?_same h hu (by simp [Path.same]), Option.some.injEq] at hunit
    rw [← hunit] at hwritten hdiffers
    exact hdiffers (hwritten.symm.trans hsame)
  · next hdiffers =>
    -- a unit whose text changes has fixes, so its file is gone through
    have hsome : own u ≠ [] := by
      intro hnone
      rw [hnone, written_of_accepted_eq_nil (accepted_nil f u.source)] at hdiffers
      exact hdiffers rfl
    have hentry : (u.path, own u) ∈ f.byFile.toList := by
      rw [hbyFile, mem_gathered_iff h hown]
      exact ⟨u, hu, hsome, rfl, rfl⟩
    have hrewrite :
        f.rewrite? units (u.path, own u) = some ⟨u.path, u, f.written u.source (own u)⟩ :=
      rewrite?_eq_some_iff.2 ⟨hmode, rfl, find?_same h hu (by simp [Path.same]), rfl, hdiffers⟩
    exact SortedMap.get?_eq_some_of_mem (htexts.mem_outputs hentry hrewrite)
      Std.ReflCmp.compare_self

/-- New texts are those of units. -/
theorem exists_unit_of_outputs {p : Path} {new : String}
    (hnew : (f.applyAll units).outputs.get? p = some new) : ∃ u ∈ units, u.path.same p = true := by
  rcases SortedMap.exists_mem_of_get? hnew with ⟨q, hq, hnew⟩
  rcases (texts_applyAll f units).exists_rewrite hnew with ⟨fixes, u, -, hrewrite⟩
  have hunit := (rewrite?_eq_some_iff.1 hrewrite).2.2.1
  refine ⟨u, List.mem_of_find?_eq_some hunit, ?_⟩
  have hsame : u.path.same q = true := by simpa using List.find?_some hunit
  rw [Path.same, decide_eq_true_eq] at hsame ⊢
  rw [hsame, Path.compare_eq_iff.1 hq]

/-- Members that contribute nothing may be left out. -/
theorem flatMap_filter {α β : Type} {g : α → List β} {p : α → Bool} {l : List α}
    (h : ∀ a ∈ l, p a = false → g a = []) : (l.filter p).flatMap g = l.flatMap g := by
  induction l with
  | nil => rfl
  | cons a l ih =>
    have hl := ih fun b hb => h b (List.mem_cons_of_mem a hb)
    cases ha : p a with
    | true => rw [List.filter_cons_of_pos ha, List.flatMap_cons, List.flatMap_cons, hl]
    | false =>
      rw [List.filter_cons_of_neg (by simp [ha]), List.flatMap_cons, hl, h a List.mem_cons_self ha,
        List.nil_append]

/-- The fixes that fail are those that are dropped in their units. -/
theorem failed_applyAll (hmode : f.mode ≠ .showOnly) (h : SourceUnit.apart units)
    (hown : ∀ u ∈ units, ∀ fix ∈ own u, fix.file = u.path)
    (hbyFile : f.byFile = (units.flatMap own).foldl gather ∅) :
    (f.applyAll units).failed = (units.flatMap fun u => f.dropped u.source (own u)).length := by
  have hfailed : ∀ u ∈ units.filter (fun u => !(own u).isEmpty),
      (f.fate units (u.path, own u)).failed = (f.dropped u.source (own u)).map (·.1) := by
    intro u hu
    rw [fate, find?_same h (List.mem_filter.1 hu).1 (by simp [Path.same])]
    dsimp only
    rw [if_neg hmode]
    split <;> rfl
  have hnone : ∀ u ∈ units, (!(own u).isEmpty) = false → f.dropped u.source (own u) = [] := by
    intro u _ hempty
    have hnil : own u = [] := by simpa using hempty
    rw [hnil, dropped, queue, List.filter_nil, List.mergeSort_nil, accept]
  -- the order of the files does not matter for a number
  have hperm := (toList_gathered_perm h hown).flatMap_right fun e => (f.fate units e).failed
  rw [← hbyFile, List.flatMap_map, List.flatMap_congr hfailed, ← List.map_flatMap,
    flatMap_filter hnone] at hperm
  rw [(counted_applyAll f units).failed, hperm.length_eq, List.length_map]

end Fixer

end CallLint
