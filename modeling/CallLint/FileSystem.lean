import CallLint.Path
import CallLint.Sorted.Map

/-!
# File systems

A file system is a finite map from places to the texts of files. Directories are not kept on their
own: a place is a directory if a file is below it, or the working directory.

* `Path.flaw?`: what is wrong with a path wherever it leads.
* `FileSystem.locate`: the place that a path leads to, from directory to directory.
* `FileSystem.read`, `FileSystem.write`: the text of a file before and after.
* `FileSystem.below`: everything that a directory holds, at any depth.
-/

namespace CallLint

/-- A place in a file system: the names on the way to it from the root. -/
abbrev Address := List String

/-- Why a file cannot be read or written. -/
inductive AccessError where
  | missing
  | notDirectory
  | isDirectory
  /-- A path, or a name in it, has more bytes than the system takes. -/
  | tooLong
  /-- A path has the character that ends every text of the system. -/
  | endsEarly
deriving DecidableEq, Repr

namespace AccessError

/-- A failure in the words of the system. -/
def message : AccessError → String
  | .missing => "No such file or directory (os error 2)"
  | .notDirectory => "Not a directory (os error 20)"
  | .isDirectory => "Is a directory (os error 21)"
  | .tooLong => "File name too long (os error 36)"
  | .endsEarly => "file name contained an unexpected NUL byte"

end AccessError

/-- How many bytes a path may have. -/
def Path.maxSize : Nat := 4095

/-- How many bytes a name in a directory may have. -/
def Path.maxNameSize : Nat := 255

/-- Why a path leads nowhere, whatever the files are. -/
def Path.flaw? (p : Path) : Option AccessError :=
  if p.text.toList.contains '\x00' then some .endsEarly
  else if p.isEmpty then some .missing
  else if Path.maxSize < p.text.utf8ByteSize then some .tooLong
  else none

/-- The files of a machine. -/
structure FileSystem where
  files : SortedMap Address String
  /-- The directory where relative paths start. -/
  workingDirectory : Address
  /-- The directory of the user. -/
  home : Option Path
deriving Repr

namespace FileSystem

/-- The text of the file at a place, if there is one. -/
def textAt? (fs : FileSystem) (a : Address) : Option String := fs.files.get? a

/-- Whether a place is a directory. -/
def isDirectoryAt (fs : FileSystem) (a : Address) : Bool :=
  a.isPrefixOf fs.workingDirectory || fs.files.keys.any fun f => a.isPrefixOf f &&
  a.length < f.length

/-- Whether a part of a path stands for a directory that is already known. -/
def isKnown (part : List Char) : Bool := Path.isVoid part || part = ['.', '.']

/-- Goes from a directory to the entry that a part of a path names. -/
def enter (a : Address) (part : List Char) : Address :=
  if Path.isVoid part then a
  else if part = ['.', '.'] then a.dropLast
  else a ++ [.ofList part]

/-- Goes on from a place by a part of a path. Only a directory has entries. -/
def step (fs : FileSystem) (a : Address) (part : List Char) : Except AccessError Address :=
  if fs.isDirectoryAt a then
    if Path.maxNameSize < (String.ofList part).utf8ByteSize then .error .tooLong
    else .ok (enter a part)
  else .error (if (fs.textAt? a).isSome then .notDirectory else .missing)

/-- The place where a path starts. -/
def start (fs : FileSystem) (p : Path) : Address := if p.isAbsolute then [] else fs.workingDirectory

/-- The place that a path leads to. Nothing need be there, but all before it has to be. -/
def locate (fs : FileSystem) (p : Path) : Except AccessError Address :=
  match p.flaw? with
  | some e => .error e
  | none => (Path.segments p.text.toList).foldlM fs.step (fs.start p)

/-! ## Questions -/

/-- Whether a path leads to a place with a property. -/
def leadsTo (fs : FileSystem) (holds : Address → Bool) (p : Path) : Bool :=
  match fs.locate p with
  | .ok a => holds a
  | .error _ => false

/-- Whether a path leads to a file. -/
def isFile (fs : FileSystem) (p : Path) : Bool := fs.leadsTo (fun a => (fs.textAt? a).isSome) p

/-- Whether a path leads to a directory. -/
def isDirectory (fs : FileSystem) (p : Path) : Bool := fs.leadsTo fs.isDirectoryAt p

/-- Whether a path leads to anything. -/
def holds (fs : FileSystem) (p : Path) : Bool := fs.isFile p || fs.isDirectory p

/-- The ways from a directory to everything below it. -/
def below (fs : FileSystem) (p : Path) : List (List String) :=
  match fs.locate p with
  | .error _ => []
  | .ok a =>
    let ways :=
      fs.files.keys.filterMap fun f => if a.isPrefixOf f then some (f.drop a.length) else none
    (ways.flatMap fun way => (List.range way.length).map fun n => way.take (n + 1)).eraseDups

/-! ## Reading and writing -/

/-- The text of a file. -/
def read (fs : FileSystem) (p : Path) : Except AccessError String := do
  let a ← fs.locate p
  match fs.textAt? a with
  | some text => return text
  | none => throw (if fs.isDirectoryAt a then .isDirectory else .missing)

/-- Gives a file a new text, or makes a new file in a directory. What is written like a directory is
no file, even if nothing of this name is there. -/
def write (fs : FileSystem) (p : Path) (text : String) : Except AccessError FileSystem := do
  if let some e := p.flaw? then throw e
  let parts := (Path.segments p.text.toList).reverse
  let slashes := parts.takeWhile (·.isEmpty)
  let above := parts.drop slashes.length
  let a ← above.tail.reverse.foldlM fs.step (fs.start p)
  let entry := above.headD []
  if !slashes.isEmpty && fs.isDirectoryAt a then throw .isDirectory
  let target ← fs.step a entry
  if isKnown entry || fs.isDirectoryAt target then throw .isDirectory
  return { fs with files := fs.files.insert target text }

/-- The files that another file system has not, or has with another text. -/
def changedFrom (fs old : FileSystem) : List (Address × String) :=
  fs.files.toList.filter fun (a, text) => old.textAt? a ≠ some text

end FileSystem

end CallLint
