import Provenance.Text

/-!
# File paths

A path is a start and the names that lead on from it. Reading a path drops empty names and single
dots, so that several texts name one path; two dots stay, since what lies above a name is only known
to the file system.

* `FilePath.ofText` — the path that a text names.
* `FilePath.text` — the shortest text of a path; an empty path is a single dot.
* `FilePath.fault?` — why no file can have a path for a name, if so.
-/

namespace Provenance

/-- Where a path starts. -/
inductive PathRoot where
  /-- At the working directory. -/
  | here
  /-- At the top of the file system. -/
  | top
  /-- At the place that two leading slashes stand for. -/
  | doubleTop
  deriving DecidableEq, Repr

/-- The text that a path with this start begins with. -/
def PathRoot.text : PathRoot → Text
  | here => ""
  | top => "/"
  | doubleTop => "//"

/-- Why no file can have a name. -/
inductive NameFault where
  /-- The name has no bytes. -/
  | unencodable
  /-- A NUL stands in the name. -/
  | holdsNul
  deriving DecidableEq, Repr

/-- A start and the names that lead on from it. -/
structure FilePath where
  /-- Where the path starts. -/
  root : PathRoot
  /-- The names, none of them empty or a single dot. -/
  parts : List Text
  deriving DecidableEq, Repr

namespace FilePath

/-- The pieces of a text between its slashes, at least one. -/
def pieces : Text → List Text
  | [] => [[]]
  | c :: rest =>
    if c = .char '/' then [] :: pieces rest
    else
      match pieces rest with
      | [] => [[c]]
      | piece :: more => (c :: piece) :: more

/-- The start of a text: exactly two leading slashes are told from one or from more. -/
def rootOf (text : Text) : PathRoot :=
  match (text.takeWhile (· = .char '/')).length with
  | 0 => .here
  | 2 => .doubleTop
  | _ => .top

/-- The path that a text names. -/
def ofText (text : Text) : FilePath :=
  ⟨rootOf text, (pieces text).filter fun piece => piece ≠ [] ∧ piece ≠ [.char '.']⟩

/-- The text of a path. -/
def text (path : FilePath) : Text :=
  if path.root = .here ∧ path.parts = [] then "."
  else path.root.text ++ Text.intercalate "/" path.parts

/-- The number of bytes that a code point has in the name of a file. -/
def pointSize : CodePoint → Nat
  | .char c => c.utf8Size
  | .half _ => 1

/-- The number of bytes that a text has as the name of a file. -/
def nameSize (name : Text) : Nat := name.foldl (fun size c => size + pointSize c) 0

/-- Whether a code point can stand in the name of a file: half of a surrogate pair can only where it
stands for a byte. -/
def isNameable (c : CodePoint) : Bool := c.holds (fun _ => true) || c.isStrayByte

/-- Why no file can have a path for a name. A name without bytes is noticed before a NUL. -/
def fault? (path : FilePath) : Option NameFault :=
  if path.parts.any fun name => !name.all isNameable then some .unencodable
  else if path.parts.any fun name => decide (.char '\x00' ∈ name) then some .holdsNul
  else none

end FilePath

end Provenance
