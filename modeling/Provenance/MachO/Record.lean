import Provenance.Architecture
import Provenance.Bytes.Layout
import Provenance.Bytes.Misread
import Provenance.Format
import Provenance.Text.Utf8

/-!
# Records of Mach-O files

The records of a Mach-O image, in the byte order that its first word shows, and the entries of the
table that a universal binary starts with, which are always big-endian.

* `detectByteOrder` — the byte order and the address width that the first word shows.
* `Header`, `LoadCommand`, `Segment`, `Section`, `Library` — the records of an image.
* `Arch` — an entry of a universal binary.
* `RecordError` — why a record cannot be read.
-/

namespace Provenance.MachO

/-- The parts of an image that can be cut off. -/
inductive RecordKind where
  | loadCommand
  | segmentCommand
  | sectionRecord
  | libraryCommand
  deriving DecidableEq, Repr

/-- Why a record cannot be read. -/
inductive RecordError where
  /-- The file ends within its first word. -/
  | magicTooShort (size : Nat)
  /-- The first word is not that of an image. -/
  | badMagic (found : List UInt8)
  /-- The file ends within the header. -/
  | headerTooShort (size : Nat)
  /-- The data end within a record. -/
  | tooShort (kind : RecordKind)
  /-- The name of a library does not lie in its command. -/
  | nameOffset (offset size : Int)
  /-- The file ends within an entry of the architecture table. -/
  | archTooShort (offset : Int)
  /-- A negative offset names a place that the data do not have. -/
  | outside (error : Misread)
  deriving DecidableEq, Repr

/-- What a record is called when it is cut off. -/
def RecordKind.label : RecordKind → String
  | loadCommand => "load command"
  | segmentCommand => "segment command"
  | sectionRecord => "section"
  | libraryCommand => "dylib command"

/-- The wording of a failure. -/
def RecordError.message : RecordError → String
  | magicTooShort size => "Data too short for Mach-O magic: " ++ toString size ++ " < 4"
  | badMagic found =>
    "Invalid Mach-O magic: " ++ String.join (found.map fun b => Text.hex 2 b.toNat)
  | headerTooShort size => "Data too short for Mach-O header: " ++ toString size ++ " < 28"
  | tooShort kind => "Data too short for " ++ kind.label
  | nameOffset offset size =>
    "Invalid name offset " ++ toString offset ++ " in dylib command of size " ++ toString size
  | archTooShort offset => "Data too short for fat_arch at offset " ++ Text.signedHex offset
  | outside error => error.message

/-- The width of addresses in an image. -/
inductive AddressWidth where
  /-- 32-bit addresses. -/
  | bits32
  /-- 64-bit addresses. -/
  | bits64
  deriving DecidableEq, Repr

/-- An address, an offset or a size. -/
def AddressWidth.word : AddressWidth → Word
  | bits32 => .u32
  | bits64 => .u64

/-- The byte order and the address width that the first word of an image shows. -/
def detectByteOrder (data : Bytes) : Except RecordError (ByteOrder × AddressWidth) :=
  if data.size < 4 then .error (.magicTooShort data.size)
  else
    let head := (data.extract 0 4).toList
    let widthIn (order : ByteOrder) : Option (ByteOrder × AddressWidth) :=
      if order.decode head = machOMagic32 then some (order, .bits32)
      else if order.decode head = machOMagic64 then some (order, .bits64)
      else none
    match [ByteOrder.big, ByteOrder.little].findSome? widthIn with
    | some found => .ok found
    | none => .error (.badMagic head)

/-! ## Header -/

/-- The header of an image. -/
structure Header where
  /-- The first word. -/
  magic : Int
  /-- The processor. -/
  cpuType : Int
  /-- The kind of processor. -/
  cpuSubtype : Int
  /-- What the file is for. -/
  fileType : Int
  /-- How many load commands follow. -/
  commandCount : Int
  /-- The size of all load commands. -/
  commandsSize : Int
  /-- Flags. -/
  flags : Int
  deriving DecidableEq, Repr

namespace Header

/-- Seven words. -/
def codec (order : ByteOrder) : Codec Header where
  layout := [.word .u32, .word .i32, .word .i32, .word .u32, .word .u32, .word .u32, .word .u32]
  order := order
  ofRow := fun (magic, cpu, subtype, type, count, size, flags, ()) =>
    ⟨magic, cpu, subtype, type, count, size, flags⟩
  toRow := fun h =>
    (h.magic, h.cpuType, h.cpuSubtype, h.fileType, h.commandCount, h.commandsSize, h.flags, ())

/-- The header of an image in a byte order. -/
def decode (order : ByteOrder) (data : Bytes) : Except RecordError Header :=
  (codec order).readOr data 0 (.headerTooShort data.size) .outside

/-- Whether addresses have 64 bits. -/
def is64Bit (h : Header) : Bool := h.magic == machOMagic64

/-- The offset of the first load command: with 64-bit addresses a reserved word comes before it. -/
def size (h : Header) : Int := if h.is64Bit then 32 else 28

/-- The bytes of a header, with the reserved word if it has one. -/
def encode? (order : ByteOrder) (h : Header) : Option (List UInt8) :=
  ((codec order).write? h).map fun bs => if h.is64Bit then bs ++ List.replicate 4 0 else bs

end Header

/-- Reads a record at an offset. -/
def read {α : Type} (c : Codec α) (kind : RecordKind) (data : Bytes) (offset : Int) :
    Except RecordError α :=
  c.readOr data offset (.tooShort kind) .outside

/-! ## Load commands -/

/-- What every load command starts with. -/
structure LoadCommand where
  /-- What the command is. -/
  command : Int
  /-- The size of the command as a whole. -/
  size : Int
  deriving DecidableEq, Repr

namespace LoadCommand

/-- Two words. -/
def codec (order : ByteOrder) : Codec LoadCommand where
  layout := [.word .u32, .word .u32]
  order := order
  ofRow := fun (command, size, ()) => ⟨command, size⟩
  toRow := fun c => (c.command, c.size, ())

/-- The size of what every load command starts with. -/
def headSize : Int := 8

/-- The load command at an offset. -/
def decode (order : ByteOrder) (data : Bytes) (offset : Int) : Except RecordError LoadCommand :=
  read (codec order) .loadCommand data offset

/-- The command of a segment, and its address width. -/
def segmentWidth? (command : Int) : Option AddressWidth :=
  if command = 0x1 then some .bits32 else if command = 0x19 then some .bits64 else none

/-- The commands that name a library: linked, weakly, re-exported, lazily, upward. -/
def libraryCommands : List Int := [0xC, 0x80000018, 0x8000001F, 0x20, 0x80000023]

end LoadCommand

/-! ## Segments and sections -/

/-- A segment of an image. -/
structure Segment where
  /-- The name. -/
  name : String
  /-- The address in memory. -/
  address : Int
  /-- The size in memory. -/
  memorySize : Int
  /-- The offset in the file. -/
  fileOffset : Int
  /-- The size in the file. -/
  fileSize : Int
  /-- The greatest protection. -/
  maxProtection : Int
  /-- The protection at the start. -/
  initialProtection : Int
  /-- How many section records follow. -/
  sectionCount : Int
  /-- Flags. -/
  flags : Int
  deriving DecidableEq, Repr

namespace Segment

/-- A name field, four words as wide as an address, and four words; they stand behind the head of
the command. -/
def layout (width : AddressWidth) : Layout :=
  [.bytes 16, .word width.word, .word width.word, .word width.word, .word width.word,
    .word .i32, .word .i32, .word .u32, .word .u32]

/-- The segment with the given field values. -/
def ofRow (width : AddressWidth) : (layout width).Row → Segment :=
  fun (name, address, vsize, offset, size, most, start, count, flags, ()) =>
    ⟨fixedName name, address, vsize, offset, size, most, start, count, flags⟩

/-- The size of a segment command without its sections. -/
def commandSize (width : AddressWidth) : Int :=
  LoadCommand.headSize + (layout width).size

/-- The segment whose command starts at an offset. -/
def decode (order : ByteOrder) (width : AddressWidth) (data : Bytes) (offset : Int) :
    Except RecordError Segment :=
  (read (Codec.rows (layout width) order) .segmentCommand data
    (offset + LoadCommand.headSize)).map (ofRow width)

end Segment

/-- A section of an image. -/
structure Section where
  /-- The name. -/
  name : String
  /-- The name of the segment. -/
  segmentName : String
  /-- The address in memory. -/
  address : Int
  /-- The size. -/
  size : Int
  /-- The offset in the file. -/
  offset : Int
  /-- The alignment, as a power of two. -/
  alignment : Int
  /-- The file offset of the relocations. -/
  relocationsOffset : Int
  /-- How many relocations there are. -/
  relocationCount : Int
  /-- Flags. -/
  flags : Int
  deriving DecidableEq, Repr

namespace Section

/-- The size of the reserved words at the end of a record. -/
def reservedSize : AddressWidth → Nat
  | .bits32 => 8
  | .bits64 => 12

/-- Two name fields, two words as wide as an address, five words, and reserved ones. -/
def layout (width : AddressWidth) : Layout :=
  [.bytes 16, .bytes 16, .word width.word, .word width.word, .word .u32, .word .u32, .word .u32,
    .word .u32, .word .u32, .gap (reservedSize width)]

/-- The section with the given field values. -/
def ofRow (width : AddressWidth) : (layout width).Row → Section :=
  fun (name, segment, address, size, offset, alignment, relocs, count, flags, ()) =>
    ⟨fixedName name, fixedName segment, address, size, offset, alignment, relocs, count, flags⟩

/-- The size of a record. -/
def recordSize (width : AddressWidth) : Int := (layout width).size

/-- The section whose record starts at an offset. -/
def decode (order : ByteOrder) (width : AddressWidth) (data : Bytes) (offset : Int) :
    Except RecordError Section :=
  (read (Codec.rows (layout width) order) .sectionRecord data offset).map (ofRow width)

end Section

/-! ## Libraries -/

/-- The fixed part of a command that names a library. -/
structure LibraryCommand where
  /-- What the command is. -/
  command : Int
  /-- The size of the command as a whole. -/
  size : Int
  /-- Where in the command the name starts. -/
  nameOffset : Int
  /-- When the library was made. -/
  timestamp : Int
  /-- The version of the library. -/
  currentVersion : Int
  /-- The oldest version that it can stand in for. -/
  compatibilityVersion : Int
  deriving DecidableEq, Repr

/-- A library that an image is linked to. -/
structure Library where
  /-- The command that names it. -/
  command : Int
  /-- The path. -/
  name : String
  /-- When the library was made. -/
  timestamp : Int
  /-- The version of the library. -/
  currentVersion : Int
  /-- The oldest version that it can stand in for. -/
  compatibilityVersion : Int
  deriving DecidableEq, Repr

namespace LibraryCommand

/-- Six words. -/
def codec (order : ByteOrder) : Codec LibraryCommand where
  layout := [.word .u32, .word .u32, .word .u32, .word .u32, .word .u32, .word .u32]
  order := order
  ofRow := fun (command, size, name, time, current, compatible, ()) =>
    ⟨command, size, name, time, current, compatible⟩
  toRow := fun c =>
    (c.command, c.size, c.nameOffset, c.timestamp, c.currentVersion, c.compatibilityVersion, ())

end LibraryCommand

namespace Library

/-- The library named by the command at an offset. The name ends at the first NUL, or with the
command. -/
def decode (order : ByteOrder) (data : Bytes) (offset : Int) : Except RecordError Library := do
  let c ← read (LibraryCommand.codec order) .libraryCommand data offset
  if c.size ≤ c.nameOffset then .error (.nameOffset c.nameOffset c.size)
  else
    let path := (data.slice (offset + c.nameOffset) (offset + c.size)).toList
    .ok ⟨c.command, utf8Text (path.takeWhile (· ≠ 0)), c.timestamp, c.currentVersion,
      c.compatibilityVersion⟩

end Library

/-! ## Architecture table -/

/-- An entry of a universal binary. -/
structure Arch where
  /-- The processor. -/
  cpuType : Int
  /-- The kind of processor. -/
  cpuSubtype : Int
  /-- The file offset of the image. -/
  offset : Int
  /-- The size of the image. -/
  size : Int
  /-- The alignment, as a power of two. -/
  alignment : Int
  deriving DecidableEq, Repr

namespace Arch

/-- Five words, the most significant byte first. -/
def codec : Codec Arch where
  layout := [.word .i32, .word .i32, .word .u32, .word .u32, .word .u32]
  order := .big
  ofRow := fun (cpu, subtype, offset, size, alignment, ()) =>
    ⟨cpu, subtype, offset, size, alignment⟩
  toRow := fun a => (a.cpuType, a.cpuSubtype, a.offset, a.size, a.alignment, ())

/-- The entry at an offset. -/
def decode (data : Bytes) (offset : Int) : Except RecordError Arch :=
  codec.readOr data offset (.archTooShort offset) .outside

/-- The name of the processor. -/
def architecture (a : Arch) : String := architectureOfCpuType a.cpuType

end Arch

end Provenance.MachO
