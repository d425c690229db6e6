import Provenance.MachO.Image

/-!
# Universal binaries

Images of several architectures in one file, behind a table that says where each lies.

* `Universal.ofBytes` — the slices of a file, or the first reason why it is no universal binary. All
  slices have to be images of the processor that the table names, and no processor is named twice.
* `Universal.find?` — the last slice of an architecture.
* `Universal.select?` — the slice to look at on a host.
-/

namespace Provenance.MachO

/-- The greatest number of architectures that is accepted. -/
def maxArches : Nat := 64

/-- Why a file is not a universal binary. -/
inductive UniversalError where
  /-- The file ends within the header. -/
  | headerTooShort (size : Nat)
  /-- The first word is not that of a universal binary. -/
  | badMagic (word : Nat)
  /-- There are too many architectures. -/
  | tooManyArches (count : Nat)
  /-- An entry of the table cannot be read. -/
  | record (error : RecordError)
  /-- The table names a processor twice. -/
  | duplicate (arch : Arch)
  /-- A slice runs past the end of the file. -/
  | sliceCutOff (arch : Arch) (size : Nat)
  /-- A slice is no image. -/
  | image (error : ImageError)
  /-- A slice is an image for another processor. -/
  | otherProcessor (arch : Arch) (found : String)
  deriving DecidableEq, Repr

/-- The wording of a failure. -/
def UniversalError.message : UniversalError → String
  | headerTooShort size => "Data too short for fat header: " ++ toString size ++ " < 8"
  | badMagic word => "Invalid fat magic: " ++ Text.signedHex word
  | tooManyArches count =>
    "Architecture count (" ++ toString count ++ ") exceeds maximum (" ++ toString maxArches ++ ")"
  | record error => error.message
  | duplicate arch =>
    "Duplicate architecture " ++ arch.architecture ++ " (subtype "
      ++ Text.signedHex arch.cpuSubtype ++ ")"
  | sliceCutOff arch size =>
    "Architecture " ++ arch.architecture ++ " extends past end of file ("
      ++ Text.signedHex (arch.offset + arch.size) ++ " > " ++ Text.signedHex size ++ ")"
  | image error => error.message
  | otherProcessor arch found =>
    "Architecture " ++ arch.architecture ++ " slice has CPU type " ++ found

/-- One architecture of a universal binary. -/
structure Slice where
  /-- The entry of the table. -/
  arch : Arch
  /-- The image. -/
  image : Image
  deriving DecidableEq, Repr

/-- A universal binary. -/
structure Universal where
  /-- The first word. -/
  magic : Nat
  /-- The slices, in table order. -/
  slices : List Slice
  deriving DecidableEq, Repr

namespace Slice

/-- The name of the processor. -/
def architecture (s : Slice) : String := s.arch.architecture

/-- The slice that an entry of the table stands for, unless one of the entries before it names the
same processor. -/
def ofArch (data : Bytes) (before : List Arch) (arch : Arch) : Except UniversalError Slice :=
  if before.any fun b => b.cpuType = arch.cpuType ∧ b.cpuSubtype = arch.cpuSubtype then
    .error (.duplicate arch)
  else if data.size < arch.offset + arch.size then .error (.sliceCutOff arch data.size)
  else
    match Image.ofBytes (data.slice arch.offset (arch.offset + arch.size)) with
    | .error e => .error (.image e)
    | .ok image =>
      if image.header.cpuType = arch.cpuType then .ok ⟨arch, image⟩
      else .error (.otherProcessor arch image.architecture)

end Slice

namespace Universal

/-- The size of what stands before the table. -/
def headerSize : Nat := 8

/-- The slices of `count` entries of the table, the first of number `index`, behind those in
`before`, which are in reverse. -/
def readSlices (data : Bytes) :
    (count index : Nat) → (before : List Slice) → Except UniversalError (List Slice)
  | 0, _, before => .ok before.reverse
  | count + 1, index, before => do
    let arch ← (Arch.decode data (headerSize + index * Arch.codec.size)).mapError .record
    let slice ← Slice.ofArch data (before.map (·.arch)) arch
    readSlices data count (index + 1) (slice :: before)

/-- The universal binary that a file holds. -/
def ofBytes (data : Bytes) : Except UniversalError Universal :=
  let magic := bigWord data 0
  let count := bigWord data 4
  if data.size < headerSize then .error (.headerTooShort data.size)
  else if magic ∉ universalMagics then .error (.badMagic magic)
  else if maxArches < count then .error (.tooManyArches count)
  else (readSlices data count 0 []).map (⟨magic, ·⟩)

/-- The last slice of a given architecture. -/
def find? (u : Universal) (architecture : String) : Option Slice :=
  u.slices.reverse.find? (·.architecture = architecture)

/-- The slice to look at on a host: the last one of the host's architecture, or else the first. -/
def select? (u : Universal) (host? : Option String) : Option Slice :=
  (host?.bind u.find?).or u.slices.head?

end Universal

end Provenance.MachO
