import Provenance.MachO.Record

/-!
# Mach-O images

An image of one architecture: its header and what its load commands say.

* `Image.ofBytes` — the image that a file holds, or the first reason why it holds none. The commands
  follow one another by their own sizes, and each has to lie in the space that the header gives
  them.
-/

namespace Provenance.MachO

/-- The greatest number of load commands that is accepted. -/
def maxCommands : Int := 0x10000

/-- Why a file is not an image. -/
inductive ImageError where
  /-- A record cannot be read. -/
  | record (error : RecordError)
  /-- There are too many load commands. -/
  | tooManyCommands (count : Int)
  /-- The load commands run past the end of the file. -/
  | commandsCutOff (stop : Int) (size : Nat)
  /-- A load command has no room for its head. -/
  | commandCutOff (index : Nat) (offset : Int)
  /-- A load command has a size that it cannot have. -/
  | commandSize (index : Nat) (size : Int)
  /-- The sections of a segment do not fit in its command. -/
  | sectionsCutOff (name : String) (count size : Int)
  deriving DecidableEq, Repr

/-- The wording of a failure. -/
def ImageError.message : ImageError → String
  | record error => error.message
  | tooManyCommands count =>
    "Load command count (" ++ toString count ++ ") exceeds maximum (" ++ toString maxCommands ++ ")"
  | commandsCutOff stop size =>
    "Load commands extend past end of file (" ++ Text.signedHex stop ++ " > "
      ++ Text.signedHex size ++ ")"
  | commandCutOff index offset =>
    "Load command " ++ toString index ++ " at offset " ++ Text.signedHex offset ++ " is truncated"
  | commandSize index size =>
    "Load command " ++ toString index ++ ": invalid command block size " ++ toString size
  | sectionsCutOff name count size =>
    "Segment " ++ name ++ ": " ++ toString count ++ " sections do not fit in command of size "
      ++ toString size

/-- What a load command says, as far as it matters here. -/
inductive Command where
  /-- A segment with its sections. -/
  | segment (segment : Segment) (sections : List Section)
  /-- A library. -/
  | library (library : Library)
  /-- Anything else. -/
  | other
  deriving DecidableEq, Repr

/-- An image of one architecture. -/
structure Image where
  /-- The byte order. -/
  order : ByteOrder
  /-- The header. -/
  header : Header
  /-- The segments, in the order of their commands. -/
  segments : List Segment
  /-- The sections of all segments, in order. -/
  sections : List Section
  /-- The libraries, in the order of their commands. -/
  libraries : List Library
  deriving DecidableEq, Repr

namespace Command

/-- The segment of a command, if it is one. -/
def segment? : Command → Option Segment
  | segment s _ => some s
  | _ => none

/-- The sections of a command. -/
def sections : Command → List Section
  | segment _ found => found
  | _ => []

/-- The library of a command, if it names one. -/
def library? : Command → Option Library
  | library l => some l
  | _ => none

/-- The segment command of `size` bytes at an offset, with the section records behind it. -/
def readSegment (data : Bytes) (order : ByteOrder) (width : AddressWidth) (offset size : Int) :
    Except ImageError Command := do
  let s ← (Segment.decode order width data offset).mapError .record
  let first := Segment.commandSize width
  if size < first + s.sectionCount * Section.recordSize width then
    .error (.sectionsCutOff s.name s.sectionCount size)
  else
    let found ← (List.range s.sectionCount.toNat).mapM fun (i : Nat) =>
      (Section.decode order width data (offset + first + i * Section.recordSize width)).mapError
        .record
    return .segment s found

/-- The load command of a given number at an offset, and its size. It has to end at `stop` at the
latest. -/
def read (data : Bytes) (order : ByteOrder) (stop : Int) (index : Nat) (offset : Int) :
    Except ImageError (Command × Int) := do
  if stop < offset + LoadCommand.headSize then .error (.commandCutOff index offset)
  else
    let c ← (LoadCommand.decode order data offset).mapError .record
    if c.size < LoadCommand.headSize ∨ stop < offset + c.size then
      .error (.commandSize index c.size)
    else
      match LoadCommand.segmentWidth? c.command with
      | some width => (readSegment data order width offset c.size).map (·, c.size)
      | none =>
        if c.command ∉ LoadCommand.libraryCommands then .ok (.other, c.size)
        else if c.size < (LibraryCommand.codec order).size then
          .error (.record (.tooShort .libraryCommand))
        else ((Library.decode order data offset).mapError .record).map (.library ·, c.size)

/-- `count` load commands from an offset on, the first of number `index`. Those in `done` are in
reverse and come first. -/
def readAll (data : Bytes) (order : ByteOrder) (stop : Int) :
    (count index : Nat) → (offset : Int) → (done : List Command) →
      Except ImageError (List Command)
  | 0, _, _, done => .ok done.reverse
  | count + 1, index, offset, done =>
    match read data order stop index offset with
    | .error e => .error e
    | .ok (c, size) => readAll data order stop count (index + 1) (offset + size) (c :: done)

end Command

namespace Image

/-- The load commands behind a header. -/
def readCommands (data : Bytes) (order : ByteOrder) (header : Header) :
    Except ImageError (List Command) :=
  let stop := header.size + header.commandsSize
  if maxCommands < header.commandCount then .error (.tooManyCommands header.commandCount)
  else if data.size < stop then .error (.commandsCutOff stop data.size)
  else Command.readAll data order stop header.commandCount.toNat 0 header.size []

/-- The image with the given load commands. -/
def ofCommands (order : ByteOrder) (header : Header) (commands : List Command) : Image :=
  ⟨order, header, commands.filterMap (·.segment?), commands.flatMap (·.sections),
    commands.filterMap (·.library?)⟩

/-- The image that a file holds. -/
def ofBytes (data : Bytes) : Except ImageError Image := do
  let (order, _) ← (detectByteOrder data).mapError .record
  let header ← (Header.decode order data).mapError .record
  let commands ← readCommands data order header
  return ofCommands order header commands

/-- The name of the processor. -/
def architecture (img : Image) : String := architectureOfCpuType img.header.cpuType

/-- The names of the segments, in order. -/
def segmentNames (img : Image) : List String := img.segments.map (·.name)

/-- The names of the sections, in order. -/
def sectionNames (img : Image) : List String := img.sections.map (·.name)

/-- The paths of the libraries, in order. -/
def importedLibraries (img : Image) : List String := img.libraries.map (·.name)

end Image

end Provenance.MachO
