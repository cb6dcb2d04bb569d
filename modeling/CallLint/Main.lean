import CallLint.CommandLine.Run

/-!
# The program

Reads files, runs, and writes what the run leaves. A run sees the files below the working directory,
the configuration files of the user, and the files that its arguments name. Files that are not text
are left out, and so are directories that cannot be read or are links.

* `main`: the program.
-/

namespace CallLint.Program

/-- The place of a path as it is written. -/
def addressOf (workingDirectory : Address) (p : Path) : Address :=
  (Path.segments p.text.toList).foldl FileSystem.enter
  (if p.isAbsolute then [] else workingDirectory)

/-- The path of a place from the root. -/
def absolutePath (a : Address) : String := "/" ++ "/".intercalate a

/-- Adds the file at a place, if there is one and it is text. -/
def addFile (fs : FileSystem) (a : Address) : IO FileSystem := do
  try
    let text ← IO.FS.readFile (absolutePath a)
    return { fs with files := fs.files.insert a text }
  catch _ => return fs

/-- The files that a run sees. -/
def readFiles (arguments : List String) : IO FileSystem := do
  let directory ← IO.currentDir
  let here := addressOf [] ⟨directory.toString⟩
  let home ← IO.getEnv "HOME"
  let start : FileSystem := ⟨∅, here, home.map (⟨·⟩)⟩
  let inside ← directory.walkDir fun p => do
    try
      let _ ← p.readDir
      return (← p.symlinkMetadata).type != .symlink
    catch _ => return false
  let named := Config.usualPaths start ++ arguments.map (⟨·⟩)
  let places := inside.toList.map (fun p => addressOf [] ⟨p.toString⟩) ++ named.map (addressOf here)
  places.foldlM addFile start

/-- Writes what a run leaves, and answers its exit code. -/
def writeResult (before : FileSystem) (r : Run) : IO UInt32 := do
  IO.print r.output
  IO.eprint r.messages
  for (a, text) in r.files.changedFrom before do
    IO.FS.writeFile (absolutePath a) text
  return .ofNat r.code

end CallLint.Program

/-- Runs with some arguments on the files of this machine. -/
def main (arguments : List String) : IO UInt32 := do
  let fs ← CallLint.Program.readFiles arguments
  let terminal ← (← IO.getStdout).isTty
  CallLint.Program.writeResult fs (CallLint.Run.ofArguments fs arguments terminal)
