import Provenance.Bytes
import Provenance.FilePath
import Provenance.Text.Quoted

/-!
# File trees

What a program can do with the files of a system, and one such system: the files below a working
directory, and what a path leads to in them. Nothing is known of the directories above, except that
they are there.

* `FileSystem` — files that can be read and written.
* `FileTree` — files and directories by the names that lead to them.
* `FileTree.resolve` — the place that a path leads to; every name on the way must be in a directory.
* `FileTree.read`, `FileTree.write` — the content of a file, and a tree with a file replaced.
* `FileError` — why a file cannot be opened, and the message for it.
-/

namespace Provenance

/-- Why a file cannot be opened. -/
inductive FileError where
  /-- There is nothing of that name. -/
  | missing
  /-- Something on the way is not a directory. -/
  | notADirectory
  /-- It is a directory. -/
  | isADirectory
  /-- The path or one of its names is too long. -/
  | nameTooLong
  /-- Another failure of the system. -/
  | other (number : Nat) (reason : String)
  deriving DecidableEq, Repr

namespace FileError

/-- The number of a failure. -/
def number : FileError → Nat
  | missing => 2
  | notADirectory => 20
  | isADirectory => 21
  | nameTooLong => 36
  | other number _ => number

/-- The words for a failure. -/
def reason : FileError → String
  | missing => "No such file or directory"
  | notADirectory => "Not a directory"
  | isADirectory => "Is a directory"
  | nameTooLong => "File name too long"
  | other _ reason => reason

/-- The message of a failure for a path. -/
def message (e : FileError) (path : FilePath) : String :=
  "[Errno " ++ toString e.number ++ "] " ++ e.reason ++ ": " ++ Text.quote path.text

end FileError

/-- Files that can be read and written. -/
class FileSystem (σ : Type) where
  /-- The content of the file at a path, or why it cannot be opened. -/
  read : σ → FilePath → Except FileError Bytes
  /-- The files once one of them is written, or why that cannot be opened. -/
  write : σ → FilePath → Bytes → Except FileError σ

/-- A file or a directory. -/
inductive FileNode where
  /-- A directory. -/
  | directory
  /-- A file with its content. -/
  | file (content : Bytes)
  deriving DecidableEq, Repr

/-- Files and directories, each with the names that lead to it from the working directory. -/
structure FileTree where
  /-- The latest entry for some names comes first. -/
  entries : List (List Text × FileNode)
  deriving DecidableEq, Repr

/-- A place that a path leads to. -/
inductive Place where
  /-- Below the working directory, or that directory itself. -/
  | below (names : List Text)
  /-- A directory above. -/
  | above
  deriving DecidableEq, Repr

/-- The place above a place. -/
def Place.parent : Place → Place
  | below [] => above
  | below (name :: names) => below (name :: names).dropLast
  | above => above

/-- The place that a name leads to from a place, whether something is there or not. Nothing is known
of the names in a directory above. -/
def Place.child? : Place → Text → Option Place
  | below names, name => some (below (names ++ [name]))
  | above, _ => none

namespace FileTree

/-- A working directory with nothing in it. -/
def empty : FileTree := ⟨[]⟩

/-- What some names lead to. -/
def node? (tree : FileTree) (names : List Text) : Option FileNode :=
  if names = [] then some .directory
  else (tree.entries.find? fun e => e.1 = names).map (·.2)

/-- A tree with something put at some names. -/
def put (tree : FileTree) (names : List Text) (node : FileNode) : FileTree :=
  ⟨(names, node) :: tree.entries⟩

/-- A tree with a directory at some names, and directories on the way there. -/
def addDirectory (tree : FileTree) (names : List Text) : FileTree :=
  (List.range (names.length + 1)).foldl
    (fun t n => if (t.node? (names.take n)).isSome then t else t.put (names.take n) .directory) tree

/-- A tree with a file at some names, and directories on the way there. -/
def addFile (tree : FileTree) (names : List Text) (content : Bytes) : FileTree :=
  (tree.addDirectory names.dropLast).put names (.file content)

/-- What is at a place. -/
def at? (tree : FileTree) : Place → Option FileNode
  | .below names => tree.node? names
  | .above => some .directory

/-- The greatest size of a name, in bytes. -/
def longestName : Nat := 255

/-- The size that a path has to stay below, in bytes. -/
def pathLimit : Nat := 4096

/-- Whether a name can be looked up at a place. -/
def admits (tree : FileTree) (place : Place) (name : Text) : Except FileError Unit :=
  if tree.at? place ≠ some .directory then .error .notADirectory
  else if longestName < FilePath.nameSize name then .error .nameTooLong
  else .ok ()

/-- Follows one name. -/
def follow (tree : FileTree) (place : Place) (name : Text) : Except FileError Place := do
  tree.admits place name
  if name = ".." then return place.parent
  match place.child? name with
  | none => .error .missing
  | some next => if (tree.at? next).isSome then return next else .error .missing

/-- Where a path starts. -/
def start (path : FilePath) : Place :=
  if path.root = .here then .below [] else .above

/-- Refuses a path that is too long as a whole. -/
def checkSize (path : FilePath) : Except FileError Unit :=
  if pathLimit ≤ FilePath.nameSize path.text then .error .nameTooLong else .ok ()

/-- The place that a path leads to. -/
def resolve (tree : FileTree) (path : FilePath) : Except FileError Place := do
  checkSize path
  path.parts.foldlM tree.follow (start path)

/-- The content of the file at a path. -/
def read (tree : FileTree) (path : FilePath) : Except FileError Bytes := do
  match tree.at? (← tree.resolve path) with
  | some (.file content) => return content
  | some .directory => .error .isADirectory
  | none => .error .missing

/-- The tree with a file at a path, new or replaced. Only the last name may lead to nothing. A file
above the working directory is outside the tree, which then stays as it is. -/
def write (tree : FileTree) (path : FilePath) (content : Bytes) : Except FileError FileTree := do
  checkSize path
  match path.parts.getLast? with
  | none => .error .isADirectory
  | some name =>
    let place ← path.parts.dropLast.foldlM tree.follow (start path)
    tree.admits place name
    match if name = ".." then some place.parent else place.child? name with
    | none => return tree
    | some target =>
      match tree.at? target, target with
      | some .directory, _ | _, .above => .error .isADirectory
      | _, .below names => return tree.put names (.file content)

instance : FileSystem FileTree := ⟨read, write⟩

end FileTree

end Provenance
