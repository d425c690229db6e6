import Provenance.Bytes.Layout
import Provenance.Bytes.Misread

/-!
# Records of ELF files

The records of an ELF file, whose widths depend on the class of the file and whose byte order on its
encoding. Fields hold any integer; a record can be written exactly when every field fits its word.

* `Ident` — class and encoding, from the identification bytes that every file starts with;
  `IdentCodes` — the numbers that stand for them.
* `Header`, `SectionHeader`, `Symbol`, `DynamicEntry` — the records, each with a `codec` for an
  identification and a `decode` that reads it.
* `RecordError` — why a record cannot be read.
-/

namespace Provenance.Elf

/-- The width of addresses in a file. -/
inductive FileClass where
  /-- 32-bit addresses. -/
  | class32
  /-- 64-bit addresses. -/
  | class64
  deriving DecidableEq, Repr

namespace FileClass

/-- The number that stands for a class. -/
def code : FileClass → Int
  | class32 => 1
  | class64 => 2

/-- The class with a given number. -/
def ofCode? (n : Int) : Option FileClass := [class32, class64].find? (·.code = n)

/-- An address, an offset or a size. -/
def address : FileClass → Word
  | class32 => .u32
  | class64 => .u64

/-- A signed integer as wide as an address. -/
def signedAddress : FileClass → Word
  | class32 => .i32
  | class64 => .i64

end FileClass

/-- The number that stands for a byte order. -/
def encodingCode : ByteOrder → Int
  | .little => 1
  | .big => 2

/-- The byte order with a given number. -/
def encodingOfCode? (n : Int) : Option ByteOrder :=
  [ByteOrder.little, ByteOrder.big].find? (encodingCode · = n)

/-- The parts of a file that can be cut off. -/
inductive RecordKind where
  | sectionHeader
  | symbol
  | dynamicEntry
  deriving DecidableEq, Repr

/-- Why a record cannot be read. -/
inductive RecordError where
  /-- The file ends within the identification bytes. -/
  | identTooShort (size : Nat)
  /-- The file does not start with the ELF mark. -/
  | badMagic
  /-- The class is not known. -/
  | unknownClass (code : Int)
  /-- The encoding is not known. -/
  | unknownEncoding (code : Int)
  /-- The version is not known. -/
  | unknownVersion (code : Int)
  /-- The file ends within the header. -/
  | headerTooShort (size needed : Nat)
  /-- The data end within a record of a table. -/
  | tooShort (kind : RecordKind)
  /-- A negative offset names a place that the data do not have. -/
  | outside (error : Misread)
  deriving DecidableEq, Repr

/-- What a record is called when it is cut off. -/
def RecordKind.label : RecordKind → String
  | sectionHeader => "section header"
  | symbol => "symbol"
  | dynamicEntry => "dynamic entry"

/-- The number of identification bytes. -/
def identSize : Nat := 16

/-- The wording of a failure. -/
def RecordError.message : RecordError → String
  | identTooShort size =>
    "Data too short for ELF identification: " ++ toString size ++ " < " ++ toString identSize
  | badMagic => "Not an ELF file (bad magic)"
  | unknownClass code => "Unknown ELF class: " ++ toString code
  | unknownEncoding code => "Unknown ELF data encoding: " ++ toString code
  | unknownVersion code => "Unknown ELF version: " ++ toString code
  | headerTooShort size needed =>
    "Data too short for ELF header: " ++ toString size ++ " < " ++ toString needed
  | tooShort kind => "Data too short for " ++ kind.label
  | outside error => error.message

/-! ## Identification -/

/-- The numbers among the identification bytes. -/
structure IdentCodes where
  /-- The number of the class. -/
  fileClass : Int
  /-- The number of the encoding. -/
  encoding : Int
  /-- The version. -/
  version : Int
  /-- The operating system that the file is for. -/
  osAbi : Int
  deriving DecidableEq, Repr

namespace IdentCodes

/-- The numbers in the identification bytes of a file. -/
def ofBytes (data : Bytes) : IdentCodes :=
  let byte (i : Nat) : Int := (data.getD i 0).toNat
  ⟨byte 4, byte 5, byte 6, byte 7⟩

/-- Whether addresses have 64 bits; an unknown class has none of that width. -/
def is64Bit (codes : IdentCodes) : Bool := FileClass.ofCode? codes.fileClass == some .class64

/-- The byte order, if the encoding is known. -/
def order? (codes : IdentCodes) : Option ByteOrder := encodingOfCode? codes.encoding

end IdentCodes

/-- What the identification bytes say. -/
structure Ident where
  /-- The width of addresses. -/
  fileClass : FileClass
  /-- The byte order. -/
  order : ByteOrder
  /-- The operating system that the file is for. -/
  osAbi : Int
  deriving DecidableEq, Repr

namespace Ident

/-- The mark that every file starts with. -/
def mark : List UInt8 := [0x7F, 0x45, 0x4C, 0x46]

/-- The only version. -/
def version : Int := 1

/-- What numbers say; class, encoding and version have to be known. -/
def ofCodes (codes : IdentCodes) : Except RecordError Ident :=
  match FileClass.ofCode? codes.fileClass, codes.order? with
  | none, _ => .error (.unknownClass codes.fileClass)
  | some _, none => .error (.unknownEncoding codes.encoding)
  | some fileClass, some order =>
    if codes.version = version then .ok ⟨fileClass, order, codes.osAbi⟩
    else .error (.unknownVersion codes.version)

/-- The numbers of an identification. -/
def codes (ident : Ident) : IdentCodes :=
  ⟨ident.fileClass.code, encodingCode ident.order, version, ident.osAbi⟩

/-- An identification is known by its numbers. -/
theorem ofCodes_codes (ident : Ident) : ofCodes ident.codes = .ok ident := by
  obtain ⟨fileClass, order, osAbi⟩ := ident
  cases fileClass <;> cases order <;> rfl

/-- The identification of a file. -/
def decode (data : Bytes) : Except RecordError Ident :=
  if data.size < identSize then .error (.identTooShort data.size)
  else if ¬ data.startsWith mark then .error .badMagic
  else ofCodes (.ofBytes data)

end Ident

/-! ## File header -/

/-- The header of a file. -/
structure Header where
  /-- The identification bytes. -/
  ident : List UInt8
  /-- What the file is for. -/
  type : Int
  /-- The processor. -/
  machine : Int
  /-- The version. -/
  version : Int
  /-- The address of the first instruction. -/
  entry : Int
  /-- The file offset of the program headers. -/
  programHeadersOffset : Int
  /-- The file offset of the section headers; zero if there are none. -/
  sectionHeadersOffset : Int
  /-- Flags. -/
  flags : Int
  /-- The size of this header. -/
  headerSize : Int
  /-- The size of a program header. -/
  programHeaderSize : Int
  /-- How many program headers there are. -/
  programHeaderCount : Int
  /-- The size of a section header. -/
  sectionHeaderSize : Int
  /-- How many section headers there are; zero if the first of them tells. -/
  sectionHeaderCount : Int
  /-- Which section holds the section names. -/
  nameTableIndex : Int
  deriving DecidableEq, Repr

namespace Header

/-- The identification, words, and three addresses among them. -/
def codec (ident : Ident) : Codec Header where
  layout := [.bytes identSize, .word .u16, .word .u16, .word .u32, .word ident.fileClass.address,
    .word ident.fileClass.address, .word ident.fileClass.address, .word .u32, .word .u16,
    .word .u16, .word .u16, .word .u16, .word .u16, .word .u16]
  order := ident.order
  ofRow := fun (id, type, machine, version, entry, ph, sh, flags, size, phSize, phCount, shSize,
    shCount, names, ()) =>
    ⟨id, type, machine, version, entry, ph, sh, flags, size, phSize, phCount, shSize, shCount,
      names⟩
  toRow := fun h => (h.ident, h.type, h.machine, h.version, h.entry, h.programHeadersOffset,
    h.sectionHeadersOffset, h.flags, h.headerSize, h.programHeaderSize, h.programHeaderCount,
    h.sectionHeaderSize, h.sectionHeaderCount, h.nameTableIndex, ())

/-- The header of a file. -/
def decode (ident : Ident) (data : Bytes) : Except RecordError Header :=
  (codec ident).readOr data 0 (.headerTooShort data.size (codec ident).size) .outside

end Header

/-- Reads a record of a table at an offset. -/
def read {α : Type} (c : Codec α) (kind : RecordKind) (data : Bytes) (offset : Int) :
    Except RecordError α :=
  c.readOr data offset (.tooShort kind) .outside

/-! ## Section headers -/

/-- A section of a file. -/
structure SectionHeader where
  /-- The place of the name in the table of section names. -/
  name : Int
  /-- What the section holds. -/
  type : Int
  /-- Flags. -/
  flags : Int
  /-- The address in memory. -/
  address : Int
  /-- The offset in the file. -/
  offset : Int
  /-- The size. -/
  size : Int
  /-- Another section that belongs to this one. -/
  link : Int
  /-- More about the section. -/
  info : Int
  /-- The alignment. -/
  alignment : Int
  /-- The size of an entry, if the section is a table. -/
  entrySize : Int
  deriving DecidableEq, Repr

/-- The type of a section that holds symbols. -/
def symbolTableType : Int := 2

/-- The type of a section that holds strings. -/
def stringTableType : Int := 3

/-- The type of a section that holds what the dynamic linker needs. -/
def dynamicType : Int := 6

/-- The type of a section that has no bytes in the file. -/
def noBitsType : Int := 8

namespace SectionHeader

/-- Ten words, six of which are as wide as an address. -/
def codec (ident : Ident) : Codec SectionHeader where
  layout := [.word .u32, .word .u32, .word ident.fileClass.address, .word ident.fileClass.address,
    .word ident.fileClass.address, .word ident.fileClass.address, .word .u32, .word .u32,
    .word ident.fileClass.address, .word ident.fileClass.address]
  order := ident.order
  ofRow := fun (name, type, flags, address, offset, size, link, info, alignment, entry, ()) =>
    ⟨name, type, flags, address, offset, size, link, info, alignment, entry⟩
  toRow := fun h => (h.name, h.type, h.flags, h.address, h.offset, h.size, h.link, h.info,
    h.alignment, h.entrySize, ())

/-- The section header at an offset. -/
def decode (ident : Ident) (data : Bytes) (offset : Int) : Except RecordError SectionHeader :=
  read (codec ident) .sectionHeader data offset

/-- The file offset behind the section. -/
def endOffset (h : SectionHeader) : Int := h.offset + h.size

/-- Whether the section has no bytes in the file. -/
def isNoBits (h : SectionHeader) : Bool := h.type == noBitsType

end SectionHeader

/-! ## Symbols -/

/-- An entry of a symbol table. -/
structure Symbol where
  /-- The place of the name in the linked string table. -/
  name : Int
  /-- The value. -/
  value : Int
  /-- The size of what the symbol stands for. -/
  size : Int
  /-- Type and binding. -/
  info : Int
  /-- Visibility. -/
  other : Int
  /-- The section that the symbol belongs to. -/
  sectionIndex : Int
  deriving DecidableEq, Repr

namespace Symbol

/-- With 32-bit addresses: value and size before the small fields. -/
def codec32 (order : ByteOrder) : Codec Symbol where
  layout := [.word .u32, .word .u32, .word .u32, .word .u8, .word .u8, .word .u16]
  order := order
  ofRow := fun (name, value, size, info, other, section_, ()) =>
    ⟨name, value, size, info, other, section_⟩
  toRow := fun s => (s.name, s.value, s.size, s.info, s.other, s.sectionIndex, ())

/-- With 64-bit addresses: value and size last. -/
def codec64 (order : ByteOrder) : Codec Symbol where
  layout := [.word .u32, .word .u8, .word .u8, .word .u16, .word .u64, .word .u64]
  order := order
  ofRow := fun (name, info, other, section_, value, size, ()) =>
    ⟨name, value, size, info, other, section_⟩
  toRow := fun s => (s.name, s.info, s.other, s.sectionIndex, s.value, s.size, ())

/-- The two classes order the fields differently. -/
def codec (ident : Ident) : Codec Symbol :=
  match ident.fileClass with
  | .class32 => codec32 ident.order
  | .class64 => codec64 ident.order

/-- The symbol at an offset. -/
def decode (ident : Ident) (data : Bytes) (offset : Int) : Except RecordError Symbol :=
  read (codec ident) .symbol data offset

end Symbol

/-! ## Dynamic entries -/

/-- An entry of the dynamic section. -/
structure DynamicEntry where
  /-- What the entry tells. -/
  tag : Int
  /-- The value. -/
  value : Int
  deriving DecidableEq, Repr

namespace DynamicEntry

/-- The tag that ends the table. -/
def endTag : Int := 0

/-- The tag of a library that the file needs. -/
def neededTag : Int := 1

/-- A signed tag and a value, both as wide as an address. -/
def codec (ident : Ident) : Codec DynamicEntry where
  layout := [.word ident.fileClass.signedAddress, .word ident.fileClass.address]
  order := ident.order
  ofRow := fun (tag, value, ()) => ⟨tag, value⟩
  toRow := fun d => (d.tag, d.value, ())

/-- The dynamic entry at an offset. -/
def decode (ident : Ident) (data : Bytes) (offset : Int) : Except RecordError DynamicEntry :=
  read (codec ident) .dynamicEntry data offset

end DynamicEntry

end Provenance.Elf
