import CallLint.Diff.Script

/-!
# Tidy scripts

A script may be tidied without changing what it comes to: an insertion slides up and down over lines
that repeat what it inserts, and where it meets another insertion the two become one. First the
deletions are gone through, which cannot slide, then the insertions.

* `Diff.tidy`: the tidied script.
-/

namespace CallLint.Diff

namespace Step

/-- The step a number of lines further up. -/
def up (s : Step) (n : Nat) : Step := { s with old := s.old - n, new := s.new - n }

/-- The step a number of lines further down. -/
def down (s : Step) (n : Nat) : Step := { s with old := s.old + n, new := s.new + n }

/-- The step with a number of lines more at its end. -/
def longer (s : Step) (n : Nat) : Step := { s with len := s.len + n }

/-- The step with a number of lines less at its end. -/
def shorter (s : Step) (n : Nat) : Step := { s with len := s.len - n }

end Step

/-- Some items of a list in a row. -/
def sublist {α : Type} (l : List α) (start len : Nat) : List α := (l.drop start).take len

/-- A step in its place: the steps before it in reverse, and the steps after it. -/
structure Focus where
  before : List Step
  this : Step
  after : List Step

/-- Kept lines that go in front of some steps. -/
def keepInFront (kept : Step) : List Step → List Step
  | s :: after =>
    if s.kind = .keep then (s.up kept.len).longer kept.len :: after else kept :: s :: after
  | [] => [kept]

/-- Kept lines that go behind some steps, which are in reverse. -/
def keepBehind (kept : Step) : List Step → List Step
  | s :: before => if s.kind = .keep then s.longer kept.len :: before else kept :: s :: before
  | [] => [kept]

/-- The size of some steps, each of which counts for itself and its lines. -/
def weight : List Step → Nat
  | [] => 0
  | s :: steps => s.len + 1 + weight steps

/-- The weights of steps add up. -/
@[simp] theorem weight_cons (s : Step) (steps : List Step) :
    weight (s :: steps) = s.len + 1 + weight steps := rfl

variable {α : Type} [DecidableEq α]

/-- How many kept lines above an insertion are like its last lines. -/
def slideUp (old new : List α) (kept this : Step) : Nat :=
  if this.kind = .insert then
    commonStart (sublist old kept.old kept.len).reverse (sublist new this.new this.len).reverse
  else 0

/-- How many kept lines below an insertion are like its first lines. -/
def slideDown (old new : List α) (kept this : Step) : Nat :=
  if this.kind = .insert then
    commonStart (sublist old kept.old kept.len) (sublist new this.new this.len)
  else 0

/-- Moves a deletion or an insertion up as far as it goes. It changes places with steps of the other
kind, joins steps of its own kind, and an insertion passes kept lines that are like its last
lines. -/
def moveUp (old new : List α) (f : Focus) : Focus :=
  match _h : f.before with
  | [] => f
  | s :: before =>
    if s.kind = .keep then
      let slide := slideUp old new s f.this
      let kept : Step := ⟨.keep, s.old + s.len - slide, f.this.new + f.this.len - slide, slide⟩
      if _hs : 0 < slide ∧ slide < s.len then
        moveUp old new ⟨s.shorter slide :: before, f.this.up slide, keepInFront kept f.after⟩
      else if 0 < slide then
        moveUp old new ⟨before, f.this.up slide, keepInFront kept f.after⟩
      else if s.len = 0 then moveUp old new ⟨before, f.this, f.after⟩
      else f
    else if s.kind = f.this.kind then moveUp old new ⟨before, s.longer f.this.len, f.after⟩
    else moveUp old new ⟨before, f.this, s :: f.after⟩
termination_by weight f.before
decreasing_by all_goals simp [_h, Step.shorter] <;> omega

/-- Moves a deletion or an insertion down as far as it goes. -/
def moveDown (old new : List α) (f : Focus) : Focus :=
  match _h : f.after with
  | [] => f
  | s :: after =>
    if s.kind = .keep then
      let slide := slideDown old new s f.this
      let kept : Step := ⟨.keep, s.old, f.this.new, slide⟩
      if _hs : 0 < slide ∧ slide < s.len then
        let rest := (s.down slide).shorter slide
        moveDown old new ⟨keepBehind kept f.before, f.this.down slide, rest :: after⟩
      else if 0 < slide then
        moveDown old new ⟨keepBehind kept f.before, f.this.down slide, after⟩
      else if s.len = 0 then moveDown old new ⟨f.before, f.this, after⟩
      else f
    else if s.kind = f.this.kind then moveDown old new ⟨f.before, f.this.longer s.len, after⟩
    else moveDown old new ⟨s :: f.before, f.this, after⟩
termination_by weight f.after
decreasing_by all_goals simp [_h, Step.shorter, Step.down] <;> omega

/-- Moves all steps of one kind, from the top on, in at most so many moves. The steps before are in
reverse. -/
def settle (kind : StepKind) (old new : List α) :
    (moves : Nat) → (before after : List Step) → List Step
  | moves + 1, before, s :: after =>
    if s.kind = kind then
      let f := moveDown old new (moveUp old new ⟨before, s, after⟩)
      settle kind old new moves (f.this :: f.before) f.after
    else settle kind old new moves (s :: before) after
  | _, before, after => before.reverse ++ after

/-- The script with all deletions and then all insertions moved. -/
def tidy (old new : List α) (steps : List Step) : List Step :=
  let size := weight steps + 1
  let moves := size * size
  settle .insert old new moves [] (settle .delete old new moves [] steps)

end CallLint.Diff
