import CallLint.Diff.Compact

/-!
# Unified differences

The difference of two texts in the unified format: groups of changed lines with three lines around
them. A line ends with a line feed, a carriage return or both, and keeps its ending.

* `Diff.linesOf_flatten`: the lines of a text are the text.
* `Diff.unified`: the difference of two texts.
-/

namespace CallLint.Diff

/-! ## Lines -/

/-- The lines of a text with their endings. -/
def linesOf : List Char → List (List Char)
  | [] => []
  | '\r' :: '\n' :: cs => ['\r', '\n'] :: linesOf cs
  | c :: cs =>
    if c = '\n' || c = '\r' then [c] :: linesOf cs
    else match linesOf cs with
      | [] => [[c]]
      | line :: lines => (c :: line) :: lines

/-- The lines of a text are all of it. -/
@[simp] theorem linesOf_flatten (cs : List Char) : (linesOf cs).flatten = cs := by
  fun_induction linesOf cs with
  | case1 => rfl
  | case2 cs ih => simp [ih]
  | case3 c cs _ _ ih => simp [ih]
  | case4 c cs _ _ h ih => simp_all
  | case5 c cs _ _ line lines h ih => simp_all

/-! ## Blocks and groups -/

/-- Some lines in a row that are kept, or that give way to others. -/
structure Block where
  kept : Bool
  old : Nat
  oldLen : Nat
  new : Nat
  newLen : Nat
deriving DecidableEq, Repr

/-- The block of steps that are all kept or all changes. -/
def blockOf (steps : List Step) : Option Block :=
  let total := fun (l : List Step) => l.foldl (fun n s => n + s.len) 0
  let deleted := steps.filter (·.kind = .delete)
  let inserted := steps.filter (·.kind = .insert)
  match steps with
  | [] => none
  | first :: _ =>
    if first.kind = .keep then some ⟨true, first.old, total steps, first.new, total steps⟩
    else
      let old := ((deleted.head?).map (·.old)).getD first.old
      let new := ((inserted.head?).map (·.new)).getD first.new
      some ⟨false, old, total deleted, new, total inserted⟩

/-- The blocks of a script: neighbours are taken together if both are kept or both are changes. -/
def blocks (steps : List Step) : List Block :=
  (steps.splitBy fun a b => (a.kind == .keep) == (b.kind == .keep)).filterMap blockOf

/-- How many kept lines are shown around changes. -/
def context : Nat := 3

namespace Block

/-- The last of the kept lines that are shown before a change. -/
def lastLines (b : Block) : Block :=
  let skip := b.oldLen - context
  ⟨b.kept, b.old + skip, b.oldLen - skip, b.new + skip, b.newLen - skip⟩

/-- The first of the kept lines that are shown after a change. -/
def firstLines (b : Block) : Block :=
  { b with oldLen := min b.oldLen context, newLen := min b.newLen context }

end Block

/-- The groups of some blocks, where `group` has been begun, in reverse. Long runs of kept lines
divide groups. -/
def groupsFrom (group : List Block) : List Block → List (List Block)
  | [] => [group.reverse]
  | b :: rest =>
    if b.kept && 2 * context < b.oldLen then
      (b.firstLines :: group).reverse :: groupsFrom [b.lastLines] rest
    else groupsFrom (b :: group) rest

/-- Cuts kept lines at the start. -/
def trimFirst : List Block → List Block
  | b :: rest => (if b.kept then b.lastLines else b) :: rest
  | [] => []

/-- Cuts kept lines at the end. -/
def trimLast (bs : List Block) : List Block :=
  match bs.reverse with
  | b :: rest => ((if b.kept then b.firstLines else b) :: rest).reverse
  | [] => []

/-- The groups of changes, with the kept lines that are shown around them. -/
def groups (bs : List Block) : List (List Block) :=
  (groupsFrom [] (trimLast (trimFirst bs))).filter fun group => group.any (!·.kept)

/-! ## Writing -/

/-- A range of lines: the number of the first line, and how many there are unless there is one.
Without lines, the number is that of the line before. -/
def renderRange (start stop : Nat) : String :=
  let len := stop - start
  if len = 1 then toString (start + 1)
  else if len = 0 then s!"{start},0"
  else s!"{start + 1},{len}"

/-- The first line of a group. -/
def renderHead (group : List Block) : String :=
  match group.head?, group.getLast? with
  | some first, some last =>
    let old := renderRange first.old (last.old + last.oldLen)
    let new := renderRange first.new (last.new + last.newLen)
    s!"@@ -{old} +{new} @@\n"
  | _, _ => ""

/-- A line with its mark. A line without an ending is given one, and a remark. -/
def renderLine (mark : String) (line : List Char) : String :=
  let text := mark ++ .ofList line
  if line.getLast? = some '\n' || line.getLast? = some '\r' then text
  else text ++ "\n\\ No newline at end of file\n"

/-- The lines of a block. -/
def renderBlock (old new : List (List Char)) (b : Block) : String :=
  let oldLines := sublist old b.old b.oldLen
  if b.kept then .join (oldLines.map (renderLine " "))
  else
    .join (oldLines.map (renderLine "-"))
      ++ .join ((sublist new b.new b.newLen).map (renderLine "+"))

/-- A group of changes. -/
def renderGroup (old new : List (List Char)) (group : List Block) : String :=
  renderHead group ++ .join (group.map (renderBlock old new))

/-- The difference of two texts under the given names; empty if the texts are the same. -/
def unified (oldName newName oldText newText : String) : String :=
  let old := linesOf oldText.toList
  let new := linesOf newText.toList
  let found := groups (blocks (tidy old new (script old new)))
  if found.isEmpty then ""
  else s!"--- {oldName}\n+++ {newName}\n" ++ .join (found.map (renderGroup old new))

end CallLint.Diff
