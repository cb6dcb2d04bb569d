/-!
# Edit scripts

A shortest way from one list of lines to another by deleting and inserting lines. Ends that both
lists share stay as they are; what is between is cut at the middle of a shortest path, which is
sought from both corners at once, and each half is treated in the same way.

* `Diff.script`: the steps from one list to another.
-/

namespace CallLint.Diff

/-- What a step does. -/
inductive StepKind where
  | keep
  | delete
  | insert
deriving DecidableEq, Repr

/-- Some lines in a row that are kept, deleted or inserted, with the places in both lists where they
start. -/
structure Step where
  kind : StepKind
  old : Nat
  new : Nat
  len : Nat
deriving DecidableEq, Repr

variable {α : Type} [DecidableEq α]

/-- How many items two lists share at their start. -/
def commonStart : List α → List α → Nat
  | a :: as, b :: bs => if a = b then commonStart as bs + 1 else 0
  | _, _ => 0

/-! ## The middle of a shortest path

A path goes through a grid, by a step to the right for each deleted line, a step down for each
inserted line and a diagonal step for each line that is kept. Diagonal `k` holds the points whose
column is `k` more than their row. A frontier lists how far right paths get on the diagonals `d, d -
2, …, -d`. -/

/-- Where paths with one change more enter their diagonals, given a frontier. -/
def entries : List Nat → List Nat
  | [] => [0]
  | x :: frontier => (x + 1) :: below x frontier
where
  /-- The diagonals below one on which paths get as far as `x`. -/
  below (x : Nat) : List Nat → List Nat
    | [] => [x]
    | y :: frontier => (if y < x then x else y + 1) :: below y frontier

/-- The diagonals of paths with `d` changes. -/
def diagonals (d : Nat) : List Int := (List.range (d + 1)).map fun (j : Nat) => (d : Int) - 2 * j

/-- How far right paths with `d` changes get on a diagonal. -/
def reach? (d : Nat) (frontier : List Nat) (k : Int) : Option Nat :=
  if k.natAbs ≤ d && (d - k) % 2 = 0 then frontier[((d - k) / 2).toNat]? else none

/-- How far right a path gets that enters a diagonal at column `x`. -/
def follow (old new : List α) (k : Int) (x : Nat) : Nat :=
  x + commonStart (old.drop x) (new.drop (x - k).toNat)

/-- The point where paths from both corners meet, with columns from the left and rows from the top.
Paths with `d` changes are tried, then paths with more. -/
def meeting? (old new : List α) :
    (tries d : Nat) → (forward backward : List Nat) → Option (Nat × Nat)
  | 0, _, _, _ => none
  | tries + 1, d, forward, backward =>
    let columns := old.length
    let rows := new.length
    let delta : Int := columns - rows
    let odd := delta % 2 ≠ 0
    let starts := (diagonals d).zip (entries forward)
    let forward := starts.map fun (k, x) => follow old new k x
    let met := (starts.zip forward).find? fun ((k, _), x) =>
      odd && (reach? (d - 1) backward (delta - k)).any fun y => columns ≤ x + y
    match met with
    | some ((k, x), _) => some (x, (x - k).toNat)
    | none =>
      let starts := (diagonals d).zip (entries backward)
      let backward := starts.map fun (k, x) => follow old.reverse new.reverse k x
      let met := ((diagonals d).zip backward).find? fun (k, x) =>
        !odd && (reach? d forward (delta - k)).any fun y => columns ≤ x + y
      match met with
      | some (k, x) => some (columns - x, rows - (x - k).toNat)
      | none => meeting? old new tries (d + 1) forward backward

/-- The middle of a shortest path. No more changes are needed on one side than half of all lines. -/
def middle? (old new : List α) : Option (Nat × Nat) :=
  meeting? old new ((old.length + new.length + 1) / 2 + 1) 0 [] []

/-! ## Scripts -/

/-- A step, unless it has no lines. -/
def stepOf (kind : StepKind) (old new len : Nat) : List Step :=
  if len = 0 then [] else [⟨kind, old, new, len⟩]

/-- The steps from one list to another, which start at the given places, with at most so many
cuts. -/
def scriptFrom : (cuts i j : Nat) → (old new : List α) → List Step
  | cuts, i, j, old, new =>
    let start := commonStart old new
    let old := old.drop start
    let new := new.drop start
    let stop := commonStart old.reverse new.reverse
    let old := old.take (old.length - stop)
    let new := new.take (new.length - stop)
    let i' := i + start
    let j' := j + start
    let between :=
      if old.isEmpty || new.isEmpty then
        stepOf .delete i' j' old.length ++ stepOf .insert i' j' new.length
      else
        match cuts, middle? old new with
        | cuts + 1, some (x, y) =>
          scriptFrom cuts i' j' (old.take x) (new.take y)
            ++ scriptFrom cuts (i' + x) (j' + y) (old.drop x) (new.drop y)
        | _, _ => stepOf .delete i' j' old.length ++ stepOf .insert i' j' new.length
    stepOf .keep i j start ++ between ++ stepOf .keep (i' + old.length) (j' + new.length) stop

/-- The steps from one list of lines to another. -/
def script (old new : List α) : List Step := scriptFrom (old.length + new.length) 0 0 old new

end CallLint.Diff
