/-!
# Passes that can fail

A pass over a list asks for a result for each member in turn, and the first failure ends it.

* `bind_eq_ok_iff`: one step after another succeeds if both do.
* `mapM_cons_eq_ok_iff`: a pass succeeds if its first step does and the rest does.
* `exists_mapM_eq_ok_iff`, `mapM_eq_ok_map`: a pass succeeds if and only if every step does, and
  gives their results.
* `mapM_eq_error_iff`: a pass fails as the first step does that fails.
* `mem_of_mapM_eq_ok`: what a pass gives, member by member.
-/

namespace CallLint

variable {α β ε : Type} {f : α → Except ε β}

theorem bind_eq_ok_iff {x : Except ε α} {b : β} :
    x >>= f = .ok b ↔ ∃ a, x = .ok a ∧ f a = .ok b := by
  cases x with
  | error e => simp [bind, Except.bind]
  | ok a => simp [bind, Except.bind]

/-- A loop that can fail succeeds if its first round does and the others do after it. -/
theorem foldlM_cons_eq_ok_iff {step : β → α → Except ε β} {a : α} {l : List α} {b c : β} :
    (a :: l).foldlM step b = .ok c ↔ ∃ d, step b a = .ok d ∧ l.foldlM step d = .ok c := by
  rw [List.foldlM_cons, bind_eq_ok_iff]

theorem mapM_cons_eq_ok_iff {a : α} {l : List α} {bs : List β} :
    (a :: l).mapM f = .ok bs ↔ ∃ b rest, f a = .ok b ∧ l.mapM f = .ok rest ∧ b :: rest = bs := by
  rw [List.mapM_cons]
  cases f a with
  | error e => simp [bind, Except.bind]
  | ok b => cases l.mapM f <;> simp [bind, Except.bind, pure, Except.pure]

/-- A pass succeeds if all its steps do. -/
theorem exists_mapM_eq_ok_iff {l : List α} :
    (∃ bs, l.mapM f = .ok bs) ↔ ∀ a ∈ l, ∃ b, f a = .ok b := by
  induction l with
  | nil => simp [pure, Except.pure]
  | cons a l ih =>
    rw [List.forall_mem_cons, ← ih]
    simp only [mapM_cons_eq_ok_iff]
    constructor
    · rintro ⟨bs, b, rest, hb, hrest, -⟩
      exact ⟨⟨b, hb⟩, rest, hrest⟩
    · rintro ⟨⟨b, hb⟩, rest, hrest⟩
      exact ⟨b :: rest, b, rest, hb, hrest, rfl⟩

/-- A pass whose steps all succeed gives their results in order. -/
theorem mapM_eq_ok_map {g : α → β} {l : List α} (h : ∀ a ∈ l, f a = .ok (g a)) :
    l.mapM f = .ok (l.map g) := by
  induction l with
  | nil => rfl
  | cons a l ih =>
    rw [List.forall_mem_cons] at h
    exact mapM_cons_eq_ok_iff.2 ⟨g a, l.map g, h.1, ih h.2, rfl⟩

/-- A pass fails with the failure of a step that comes after steps that succeed. -/
theorem mapM_eq_error_iff {l : List α} {e : ε} :
    l.mapM f = .error e ↔
      ∃ before a after, l = before ++ a :: after ∧ (∀ b ∈ before, ∃ x, f b = .ok x) ∧
        f a = .error e := by
  induction l with
  | nil => simp [pure, Except.pure]
  | cons first l ih =>
    rw [List.mapM_cons]
    constructor
    · intro h
      cases hfirst : f first with
      | error cause =>
        -- the first step ends the pass
        rw [hfirst] at h
        cases h
        exact ⟨[], first, l, rfl, List.forall_mem_nil _, hfirst⟩
      | ok x =>
        rw [hfirst] at h
        cases hrest : l.mapM f with
        | ok rest =>
          rw [hrest] at h
          cases h
        | error cause =>
          -- a later one does, and the first step is one more that succeeds before it
          rw [hrest] at h
          cases h
          rcases ih.1 hrest with ⟨before, a, after, rfl, hbefore, ha⟩
          exact ⟨first :: before, a, after, rfl, List.forall_mem_cons.2 ⟨⟨x, hfirst⟩, hbefore⟩, ha⟩
    · rintro ⟨before, a, after, hl, hbefore, ha⟩
      cases before with
      | nil =>
        cases hl
        rw [ha]
        rfl
      | cons b before =>
        cases hl
        rcases List.forall_mem_cons.1 hbefore with ⟨⟨x, hx⟩, hbefore⟩
        rw [hx, ih.2 ⟨before, a, after, rfl, hbefore, ha⟩]
        rfl

/-- What a pass gives are the results of its steps. -/
theorem mem_of_mapM_eq_ok {l : List α} {bs : List β} (h : l.mapM f = .ok bs) {b : β} :
    b ∈ bs ↔ ∃ a ∈ l, f a = .ok b := by
  induction l generalizing bs with
  | nil =>
    cases h
    simp
  | cons a l ih =>
    rcases mapM_cons_eq_ok_iff.1 h with ⟨first, rest, hfirst, hrest, rfl⟩
    have hhead : f a = .ok b ↔ b = first := by rw [hfirst, Except.ok.injEq, eq_comm]
    rw [List.mem_cons, ih hrest]
    simp only [List.mem_cons, exists_eq_or_imp, hhead]

end CallLint
