import CallLint.FilePattern.Basic
import CallLint.FileSystem

/-!
# Files that fit a pattern

A pattern is expanded from directory to directory. A name that is written out is looked up; any
other component is compared with all that a directory holds.

* `FilePattern.expand`: the paths that fit one pattern.
* `FilePattern.files`: the files that fit any of some patterns, each one once.
-/

namespace CallLint.FilePattern

/-- The path of something in a directory. The working directory is not written. -/
def entry (directory : Path) (way : List String) : Path :=
  way.foldl (fun p name => if p.components = [.here] then ⟨name⟩ else p.join ⟨name⟩) directory

/-- Whether a pattern may mean the dot entries of a directory: only a dot stands for their first
dot. -/
def startsWithDot : List Sign → Bool
  | .char c :: _ => c = '.'
  | _ => false

/-- The entries of a directory that some signs fit. -/
def fitting (fs : FileSystem) (directory : Path) (signs : List Sign) : List Path :=
  let names := (fs.below directory).filterMap fun way => if way.length = 1 then way.head? else none
  let dots := if startsWithDot signs && fs.isDirectory directory then [".", ".."] else []
  (names.filter fun name => Sign.fit signs name.toList).map (fun name => entry directory [name])
    ++ (dots.filter fun name => Sign.fit signs name.toList).map fun name => directory.join ⟨name⟩

/-- The way to a name that is written out, if there is such a place. -/
def named? (fs : FileSystem) (directory : Path) (name : String) : Option Path :=
  let next := entry directory [name]
  if name = "." || name = ".." then if fs.isDirectory directory then some next else none
  else if fs.holds next then some next
  else none

/-- Everything below a directory whose name the next component fits, or all directories there if no
component follows. -/
def anywhere (fs : FileSystem) (directory : Path) (next : Option Component) : List Path :=
  let ways := match next with
    | none => fs.below directory
    | some p => (fs.below directory).filter fun way => way.getLast?.any p.fits
  let paths := ways.map (entry directory)
  if next.isNone then paths.filter fs.isDirectory else paths

/-- The paths from a directory on that fit some components. -/
def expandFrom (fs : FileSystem) (directory : Path) : List Component → List Path
  | [] => [directory]
  | .name s :: rest => (named? fs directory s).toList.flatMap fun p => expandFrom fs p rest
  | .shape signs :: rest => (fitting fs directory signs).flatMap fun p => expandFrom fs p rest
  | .everywhere :: .everywhere :: rest => expandFrom fs directory (.everywhere :: rest)
  | .everywhere :: p :: rest =>
    (anywhere fs directory (some p)).flatMap fun q => expandFrom fs q rest
  | [.everywhere] => anywhere fs directory none

/-- The paths that fit a pattern. -/
def expand (fs : FileSystem) (p : FilePattern) : List Path :=
  let paths := expandFrom fs ⟨if p.absolute then "/" else "."⟩ p.components
  if p.onlyDirectories then paths.filter fs.isDirectory else paths

/-- The first path of each run of paths to the same place. -/
def withoutRepeats : List Path → List Path
  | p :: q :: rest =>
    if p.same q then withoutRepeats (p :: rest) else p :: withoutRepeats (q :: rest)
  | paths => paths
termination_by paths => paths.length

/-- The files that fit any of some patterns, in the order of their paths. -/
def files (fs : FileSystem) (patterns : List FilePattern) : List Path :=
  let found := (patterns.flatMap (expand fs)).filter fs.isFile
  withoutRepeats (found.mergeSort fun p q => (compare p q).isLE)

end CallLint.FilePattern
