import Provenance.Pe.Record
import Provenance.Text.Quoted

/-!
# PE images

A Windows image: the headers, the data directories and the sections.

* `Image.ofBytes` — the image that a file holds, or the first reason why it holds none.
* `Image.findSection?`, `Image.content`, `Image.directory?` — parts of an image.
* `Image.fileOffset?` — where in the file the byte at an address lies.
-/

namespace Provenance.Pe

/-- The greatest number of sections that is accepted. -/
def maxSections : Int := 256

/-- The number of standard data directories. -/
def maxDirectories : Int := 16

/-- The signature in front of the COFF header. -/
def signature : List UInt8 := [0x50, 0x45, 0, 0]

/-- Why a file is not an image. -/
inductive ImageError where
  /-- A record cannot be read. -/
  | record (error : RecordError)
  /-- The signature would lie behind the end of the file. -/
  | headerOffset (offset : Int) (size : Nat)
  /-- Other bytes stand in the place of the signature. -/
  | badSignature (found : List UInt8)
  /-- The optional header has no room for its magic number. -/
  | optionalTiny (size : Int)
  /-- The magic number of the optional header is not known. -/
  | optionalUnknown (magic : Int)
  /-- The optional header is smaller than its fixed part. -/
  | optionalShort (size : Int) (kind : OptionalKind)
  /-- The data directories do not fit in the optional header. -/
  | directoriesCutOff (size count : Int)
  /-- There are too many sections. -/
  | tooManySections (count : Int)
  deriving DecidableEq, Repr

/-- The wording of a failure. -/
def ImageError.message : ImageError → String
  | record error => error.message
  | headerOffset offset size =>
    "Invalid PE header offset " ++ Text.signedHex offset ++ ": beyond end of file ("
      ++ toString size ++ " bytes)"
  | badSignature found => "Invalid PE signature: " ++ Text.quoteBytes found
  | optionalTiny size => "Optional header too small: " ++ toString size ++ " bytes"
  | optionalUnknown magic => "Unknown optional header magic: 0x" ++ Text.upperHex 4 magic.toNat
  | optionalShort size kind =>
    "Optional header size " ++ toString size ++ " is less than the " ++ kind.label
      ++ " fixed part (" ++ toString (OptionalHeader.codec kind).size ++ ")"
  | directoriesCutOff size count =>
    "Optional header size " ++ toString size ++ " is too small for " ++ toString count
      ++ " data directories"
  | tooManySections count =>
    "NumberOfSections (" ++ toString count ++ ") exceeds maximum (" ++ toString maxSections ++ ")"

/-- A section with its resolved name. -/
structure Section where
  /-- The place in the section table, from zero. -/
  index : Nat
  /-- The name, taken from the string table if it is a long one. -/
  name : String
  /-- The header. -/
  header : SectionHeader
  deriving DecidableEq, Repr

/-- A Windows image. -/
structure Image where
  /-- The file. -/
  data : Bytes
  /-- The COFF header. -/
  coff : CoffHeader
  /-- The optional header, which bare objects do not have. -/
  optional? : Option OptionalHeader
  /-- The data directories. -/
  directories : List DataDirectory
  /-- The sections, in table order. -/
  sections : List Section
  deriving Repr

/-- The name of a section. A name field with a slash and a number stands for the string at that
place of the string table; where there is none, the field is the name. -/
def sectionName (data : Bytes) (coff : CoffHeader) (h : SectionHeader) : String :=
  match h.nameText.toList with
  | '/' :: digits =>
    match Text.readInt? digits, coff.stringTableOffset? with
    | some place, some table =>
      let resolved := data.cString (table + place) none
      if resolved.isEmpty then h.nameText else resolved
    | _, _ => h.nameText
  | _ => h.nameText

/-- Turns a failure to read a record into a failure to read the image. -/
def ofRecord {α : Type} (r : Except RecordError α) : Except ImageError α :=
  r.mapError .record

namespace Image

/-- The place of the COFF header, behind the signature that the DOS header points to. -/
def coffOffset (data : Bytes) : Except ImageError Int := do
  let dos ← ofRecord (DosHeader.decode data 0)
  let start := dos.newHeaderOffset
  if data.size < start + 4 then .error (.headerOffset start data.size)
  else
    let found := (data.slice start (start + 4)).toList
    if found = signature then .ok (start + 4) else .error (.badSignature found)

/-- The optional header of `size` bytes at an offset; no bytes are no header. -/
def readOptional (data : Bytes) (size offset : Int) :
    Except ImageError (Option OptionalHeader) :=
  if size = 0 then .ok none
  else if size < 2 then .error (.optionalTiny size)
  else
    match Word.u16.read .little data offset with
    | .error e => .error (.record (.outside e))
    | .ok magic =>
      match OptionalKind.ofMagic? magic with
      | none => .error (.optionalUnknown magic)
      | some kind =>
        if size < (OptionalHeader.codec kind).size then .error (.optionalShort size kind)
        else (ofRecord (OptionalHeader.decode kind data offset)).map some

/-- The size of the fixed part of an optional header. -/
def fixedSize (h : OptionalHeader) : Int :=
  (OptionalHeader.codec (if h.isPe32Plus then .pe32Plus else .pe32)).size

/-- The data directories behind the fixed part of an optional header of `size` bytes. -/
def readDirectories (data : Bytes) (optional? : Option OptionalHeader) (size offset : Int) :
    Except ImageError (List DataDirectory) :=
  match optional? with
  | none => .ok []
  | some h =>
    let count := min h.directoryCount maxDirectories
    let first := offset + fixedSize h
    if size - fixedSize h < count * DataDirectory.codec.size then
      .error (.directoriesCutOff size count)
    else
      (List.range count.toNat).mapM fun (i : Nat) =>
        ofRecord (DataDirectory.decode data (first + i * DataDirectory.codec.size))

/-- The sections whose headers start at an offset. -/
def readSections (data : Bytes) (coff : CoffHeader) (offset : Int) :
    Except ImageError (List Section) :=
  if maxSections < coff.sectionCount then .error (.tooManySections coff.sectionCount)
  else
    (List.range coff.sectionCount.toNat).mapM fun (i : Nat) => do
      let h ← ofRecord (SectionHeader.decode data (offset + i * SectionHeader.codec.size))
      return ⟨i, sectionName data coff h, h⟩

/-- The image that a file holds. -/
def ofBytes (data : Bytes) : Except ImageError Image := do
  let start ← coffOffset data
  let coff ← ofRecord (CoffHeader.decode data start)
  let offset := start + CoffHeader.codec.size
  let optional? ← readOptional data coff.optionalHeaderSize offset
  let directories ← readDirectories data optional? coff.optionalHeaderSize offset
  let sections ← readSections data coff (offset + coff.optionalHeaderSize)
  return ⟨data, coff, optional?, directories, sections⟩

/-- Whether addresses have 64 bits. -/
def isPe32Plus (img : Image) : Bool := img.optional?.any (·.isPe32Plus)

/-- The names of the sections, in table order. -/
def sectionNames (img : Image) : List String := img.sections.map (·.name)

/-- The first section with a given name. -/
def findSection? (img : Image) (name : String) : Option Section :=
  img.sections.find? (·.name = name)

/-- The bytes of a section that are in the file. -/
def content (img : Image) (s : Section) : Bytes :=
  img.data.slice s.header.rawOffset (s.header.rawOffset + s.header.rawSize)

/-- The data directory of a given number. -/
def directory? (img : Image) (index : Int) : Option DataDirectory :=
  if index < 0 then none else img.directories[index.toNat]?

/-- The number of the data directory that describes a .NET assembly. -/
def clrDirectory : Int := 14

/-- Whether the image is a .NET assembly. -/
def hasClrMetadata (img : Image) : Bool :=
  (img.directory? clrDirectory).any (·.virtualAddress ≠ 0)

/-- Where in the file the byte at an address lies: in the first section that holds the address, if
that section has bytes in the file there. -/
def fileOffset? (img : Image) (address : Int) : Option Int :=
  match img.sections.find? (·.header.Holds address) with
  | none => none
  | some s =>
    let within := address - s.header.virtualAddress
    if s.header.rawSize ≤ within then none else some (s.header.rawOffset + within)

end Image

end Provenance.Pe
