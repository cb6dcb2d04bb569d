import CallLint.CommandLine.Arguments
import CallLint.Proofs.Passes

/-!
# What arguments name

Each argument before a lone pair of hyphens may name switches and settings. What has been named
stays named, and what has no letter is named by its word alone.

* `Arguments.Given`: what arguments name by words.
* `Arguments.Progress.named_step`: what has been named after one more argument.
* `Arguments.given_iff`: switches and settings without a letter are on exactly if they are given.
-/

namespace CallLint.Arguments

/-- Whether a switch is on. -/
def has (a : Arguments) : Switch → Bool
  | .verbose => a.verbose
  | .noColor => a.noColor
  | .listRules => a.listRules
  | .fix => a.fix
  | .write => a.write
  | .diff => a.diff
  | .showFixes => a.showFixes
  | .includeRisky => a.includeRisky
  | .exitZero => a.exitZero
  | .version => false
  | .help => false

/-- Whether a setting has a value. -/
def gives (a : Arguments) : Setting → Bool
  | .config => a.config.isSome
  | .format => a.format.isSome
  | .jobs => a.jobs.isSome
  | .disabled => a.disabled.isSome
  | .enabled => a.enabled.isSome
  | .explain => a.explain.isSome

/-- Whether arguments name a switch or give a value to a setting. -/
def names? (a : Arguments) : Meaning → Bool
  | .switch s => a.has s
  | .setting s => a.gives s

variable {a b : Arguments} {s t : Switch} {x y : Setting} {m : Meaning}

/-! ## Switches and settings -/

/-- A switch that is turned on is on, and everything else is as before. -/
theorem names?_turnOn (h : a.turnOn s = .ok b) : b.names? m = (a.names? m || m = .switch s) := by
  cases s with
  | version | help => cases h  -- these end the run
  | _ =>
    dsimp only [turnOn] at h
    split at h
    · cases h
    · cases h
      rcases m with t | y
      · cases t <;> simp [names?, has]
      · cases y <;> simp [names?, gives]

/-- A setting that is assigned has a value, and everything else is as before. -/
theorem names?_assign {value : String} (h : a.assign x value = .ok b) :
    b.names? m = (a.names? m || m = .setting x) := by
  cases x with
  | disabled | enabled =>
    -- these two may be repeated
    cases h
    rcases m with t | y
    · cases t <;> simp [names?, has]
    · cases y <;> simp [names?, gives]
  | _ =>
    dsimp only [assign] at h
    split at h
    · cases h
      rcases m with t | y
      · cases t <;> simp [names?, has]
      · cases y <;> simp [names?, gives]
    · cases h

/-! ## Arguments one by one -/

/-- What an argument names by a word. Only settings have a value behind an equals sign. -/
def ofArgument? (argument : String) : Option Meaning :=
  match argument.toList with
  | '-' :: '-' :: cs =>
    let name := cs.takeWhile (· ≠ '=')
    match ofWord? (.ofList name), cs.drop name.length with
    | some (.switch s), [] => some (.switch s)
    | some (.setting x), _ => some (.setting x)
    | _, _ => .none
  | _ => .none

namespace Progress

variable {p q : Progress} {argument : String}

/-- Whether a switch or a setting has been named. The value of a setting may be still to come. -/
def named (p : Progress) (m : Meaning) : Bool :=
  p.arguments.names? m || p.pending.any (m = .setting ·)

/-- A switch that is turned on has been named. -/
theorem named_turnOn (h : p.arguments.turnOn s = .ok a) :
    { p with arguments := a }.named m = true ↔ p.named m = true ∨ m = .switch s := by
  simp only [named, names?_turnOn h, Bool.or_eq_true, decide_eq_true_eq]
  exact or_right_comm

/-- A setting that is assigned has been named. -/
theorem named_assign {value : String} (h : p.arguments.assign x value = .ok a) :
    { p with arguments := a }.named m = true ↔ p.named m = true ∨ m = .setting x := by
  simp only [named, names?_assign h, Bool.or_eq_true, decide_eq_true_eq]
  exact or_right_comm

/-- A setting whose value is still to come has been named. -/
theorem named_pending (hp : p.pending = .none) :
    { p with pending := some x }.named m = true ↔ p.named m = true ∨ m = .setting x := by
  simp [named, hp]

/-- What a letter adds has this letter. -/
theorem named_of_letter {n : Meaning} {c : Char} (hletter : ofLetter? c = some n)
    (h : q.named m = true ↔ p.named m = true ∨ m = n) :
    (p.named m = true → q.named m = true) ∧
    (q.named m = true → p.named m = true ∨ ∃ c, ofLetter? c = some m) := by
  refine ⟨fun hm => h.2 (.inl hm), fun hm => ?_⟩
  rcases h.1 hm with hm | rfl
  · exact .inl hm
  · exact .inr ⟨c, hletter⟩

/-- Letters name what they stand for, and nothing is forgotten. -/
theorem named_letters {cs : List Char} (h : p.letters cs = .ok q) (hp : p.pending = .none) :
    ((p.named m = true → q.named m = true) ∧
      (q.named m = true → p.named m = true ∨ ∃ c, ofLetter? c = some m)) ∧
      q.onlyPatterns = p.onlyPatterns := by
  -- only a switch lets the letters go on; a setting takes what is left of them
  induction cs generalizing p with
  | nil =>
    cases h
    exact ⟨⟨id, .inl⟩, rfl⟩
  | cons c cs ih =>
    unfold letters at h
    split at h
    · cases h
    · next s hletter =>
      rcases bind_eq_ok_iff.1 h with ⟨a, ha, h⟩
      rcases ih h hp with ⟨⟨hkept, hnamed⟩, honly⟩
      rcases named_of_letter (m := m) hletter (named_turnOn ha) with ⟨hkept', hnamed'⟩
      refine ⟨⟨hkept ∘ hkept', fun hm => ?_⟩, honly⟩
      exact (hnamed hm).elim hnamed' .inr
    · next x hletter =>
      -- no letters are left: the next argument is the value
      cases h
      exact ⟨named_of_letter hletter (named_pending hp), rfl⟩
    · next x value hletter =>
      rcases bind_eq_ok_iff.1 h with ⟨a, ha, h⟩
      cases h
      exact ⟨named_of_letter hletter (named_assign ha), rfl⟩
    · next hletter _ _ =>
      rcases bind_eq_ok_iff.1 h with ⟨a, ha, h⟩
      cases h
      exact ⟨named_of_letter hletter (named_assign ha), rfl⟩

/-- A word names what it stands for and nothing else. -/
theorem named_word {cs : List Char} (h : p.word cs = .ok q) (hp : p.pending = .none)
    (hargument : argument.toList = '-' :: '-' :: cs) :
    (q.named m = true ↔ p.named m = true ∨ ofArgument? argument = some m) ∧
      q.onlyPatterns = p.onlyPatterns := by
  unfold word at h
  -- a word is read as `ofArgument?` reads it, so that both take the same branch
  have hmeaning : ofArgument? argument =
      match ofWord? (.ofList (cs.takeWhile (· ≠ '='))),
        cs.drop (cs.takeWhile (· ≠ '=')).length with
      | some (.switch s), [] => some (.switch s)
      | some (.setting x), _ => some (.setting x)
      | _, _ => .none := by
    rw [ofArgument?, hargument]
    rfl
  dsimp only at h
  split at h
  · next s hword hrest =>
    rcases bind_eq_ok_iff.1 h with ⟨a, ha, h⟩
    cases h
    rw [hword, hrest] at hmeaning
    rw [hmeaning, Option.some.injEq, eq_comm (b := m)]
    exact ⟨named_turnOn ha, rfl⟩
  · next x hword hrest =>
    cases h
    rw [hword, hrest] at hmeaning
    rw [hmeaning, Option.some.injEq, eq_comm (b := m)]
    exact ⟨named_pending hp, rfl⟩
  · next x value hword hrest =>
    rcases bind_eq_ok_iff.1 h with ⟨a, ha, h⟩
    cases h
    rw [hword, hrest] at hmeaning
    rw [hmeaning, Option.some.injEq, eq_comm (b := m)]
    exact ⟨named_assign ha, rfl⟩
  · cases h

/-- A pattern names nothing. -/
theorem named_pattern (p : Progress) (l : List String) :
    { p with arguments.patterns := l }.named m = p.named m := by
  rcases m with t | y
  · cases t <;> rfl
  · cases y <;> rfl

theorem eq_hyphens_iff : argument = "--" ↔ argument.toList = ['-', '-'] := String.toList_inj.symm

/-- What does not start with two hyphens is no word. -/
theorem ofArgument?_of_not_word (h : ∀ cs, argument.toList ≠ '-' :: '-' :: cs) :
    ofArgument? argument = .none := by
  unfold ofArgument?
  split
  · next cs hcs => exact absurd hcs (h cs)
  · rfl

/-- What is not an option names nothing, and does not end the options. -/
theorem of_not_isOption (h : isOption argument = false) :
    ofArgument? argument = .none ∧ argument ≠ "--" := by
  unfold isOption at h
  constructor
  · refine ofArgument?_of_not_word fun cs hcs => ?_
    simp [hcs] at h
  · rintro rfl
    revert h
    decide

/-- One more argument names what it stands for, and nothing is forgotten. -/
theorem named_step (h : p.step argument = .ok q) (hm : ∀ c, ofLetter? c ≠ some m) :
    (q.named m = true ↔ p.named m = true ∨ p.onlyPatterns = false ∧ ofArgument? argument = some m) ∧
      q.onlyPatterns = (p.onlyPatterns || argument = "--") := by
  unfold step at h
  dsimp only at h
  split at h
  · next honly =>
    -- after a lone pair of hyphens everything is a pattern
    cases h
    rw [named_pattern]
    simp [honly]
  · next honly =>
    rw [Bool.not_eq_true] at honly
    simp only [honly, true_and, Bool.false_or]
    split at h
    · next x hpending =>
      split at h
      · cases h
      · next hoption =>
        rcases of_not_isOption (Bool.not_eq_true _ ▸ hoption) with ⟨hnothing, hends⟩
        rcases bind_eq_ok_iff.1 h with ⟨a, ha, h⟩
        cases h
        -- this is the value of the setting that has been named
        simp [named, names?_assign ha, hpending, hnothing, hends, honly]
    · next hpending =>
      split at h
      · next hoption =>
        rw [Bool.not_eq_true'] at hoption
        rcases of_not_isOption hoption with ⟨hnothing, hends⟩
        cases h
        rw [named_pattern]
        simp [hnothing, hends, honly]
      · split at h
        · next hargument =>
          cases h
          have hnothing : ofArgument? argument = .none := by rw [eq_hyphens_iff.2 hargument]; decide
          rw [hnothing]
          simp [eq_hyphens_iff.2 hargument, named]
        · next cs hcs hargument =>
          rcases named_word h hpending hargument with ⟨hnamed, honly'⟩
          have hends : argument ≠ "--" := fun heq => hcs (by simpa [heq] using hargument)
          exact ⟨hnamed, by simp [honly', honly, hends]⟩
        · next hends hword =>
          -- letters may name other switches, but not `m`, which has no letter
          rcases named_letters h hpending with ⟨⟨hkept, hnamed⟩, honly'⟩
          have hnothing : ofArgument? argument = .none := ofArgument?_of_not_word hword
          have hnot : argument ≠ "--" := fun heq => hends (eq_hyphens_iff.1 heq)
          rw [hnothing]
          refine ⟨⟨fun h => ?_, fun h => hkept (h.resolve_right nofun)⟩,
            by simp [honly', honly, hnot]⟩
          exact (hnamed h).elim .inl fun ⟨c, hc⟩ => absurd hc (hm c)

/-- All arguments together: what comes before a lone pair of hyphens names what it stands for. -/
theorem named_foldlM {arguments : List String} (h : arguments.foldlM step p = .ok q)
    (hm : ∀ c, ofLetter? c ≠ some m) :
    q.named m = true ↔ p.named m = true ∨ p.onlyPatterns = false ∧
      ∃ argument ∈ arguments.takeWhile (· ≠ "--"), ofArgument? argument = some m := by
  induction arguments generalizing p with
  | nil =>
    cases h
    simp
  | cons argument arguments ih =>
    rcases foldlM_cons_eq_ok_iff.1 h with ⟨r, hr, h⟩
    rcases named_step hr hm with ⟨hnamed, honly⟩
    have hends : ofArgument? "--" = .none := by decide
    rw [ih h, hnamed, honly, List.takeWhile_cons]
    by_cases hargument : argument = "--"
    · -- nothing that follows is looked at, on either side
      simp [hargument, hends]
    · cases p.onlyPatterns <;> simp [hargument, or_assoc]

end Progress

/-! ## All arguments -/

/-- The switches and settings that have a letter. -/
def lettered : List Meaning :=
  [.setting .config, .setting .format, .setting .jobs, .switch .verbose, .switch .version,
    .switch .help]

/-- The list of what has a letter is complete. -/
theorem mem_lettered {c : Char} (h : ofLetter? c = some m) : m ∈ lettered := by
  unfold ofLetter? at h
  split at h <;> cases h <;> decide

/-- Whether some arguments name a switch or a setting by a word. After a lone pair of hyphens
nothing is named. -/
def Given (arguments : List String) (m : Meaning) : Prop :=
  ∃ argument ∈ arguments.takeWhile (· ≠ "--"), ofArgument? argument = some m

/-- What has no letter is on, or has a value, exactly if it is given. -/
theorem given_iff {arguments : List String} (h : parse arguments = .ok a) (m : Meaning)
    (hm : m ∉ lettered) : Given arguments m ↔ a.names? m = true := by
  have hletter : ∀ c, ofLetter? c ≠ some m := fun c hc => hm (mem_lettered hc)
  rcases bind_eq_ok_iff.1 h with ⟨p, hp, h⟩
  split at h
  · cases h
  · next hdone =>
    cases h
    rw [Bool.or_eq_true, not_or, Bool.not_eq_true, Option.isSome_eq_false_iff,
      Option.isNone_iff_eq_none] at hdone
    have hnamed := Progress.named_foldlM hp hletter
    -- nothing is named at the start, and no value is missing at the end
    have hstart : (⟨Arguments.none, .none, false⟩ : Progress).named m = false := by
      rcases m with t | y
      · cases t <;> rfl
      · cases y <;> rfl
    rw [Progress.named, hdone.1, hstart] at hnamed
    simpa [Given] using hnamed.symm

end CallLint.Arguments
