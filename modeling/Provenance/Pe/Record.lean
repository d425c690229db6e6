import Provenance.Bytes.Layout
import Provenance.Bytes.Misread
import Provenance.Text.Ascii
import Provenance.Text.Numeral

/-!
# Records of PE images

The fixed-layout records of a Windows image, all little-endian. Fields hold any integer; a record
can be written exactly when every field fits its word.

* `DosHeader`, `CoffHeader`, `DataDirectory`, `OptionalHeader`, `SectionHeader`,
  `ImportDescriptor` — the records, each with a `codec` and a `decode` that reads it at an offset.
* `RecordError` — why a record cannot be read.
-/

namespace Provenance.Pe

/-- The records of an image. -/
inductive RecordKind where
  | dosHeader
  | coffHeader
  | dataDirectory
  | optionalHeader
  | sectionHeader
  | importDescriptor
  deriving DecidableEq, Repr

/-- Why a record cannot be read. -/
inductive RecordError where
  /-- The data end at `size`, before the end of the record at `needed`. -/
  | tooShort (kind : RecordKind) (size needed : Int)
  /-- The file does not start like a DOS program. -/
  | dosMagic (found : Int)
  /-- The optional header has another magic number than the one expected. -/
  | optionalMagic (found expected : Int)
  /-- A word does not lie in the data. -/
  | outside (error : Misread)
  deriving DecidableEq, Repr

/-- What a record is called when it is cut off, and whether the two sizes are told. -/
def RecordKind.label : RecordKind → String × Bool
  | dosHeader => ("DOS header", true)
  | coffHeader => ("COFF header", true)
  | dataDirectory => ("data directory", false)
  | optionalHeader => ("optional header", true)
  | sectionHeader => ("section header", true)
  | importDescriptor => ("import descriptor", false)

/-- The wording of a failure. -/
def RecordError.message : RecordError → String
  | tooShort kind size needed =>
    let (label, sizes) := kind.label
    "Data too short for " ++ label
      ++ if sizes then ": " ++ toString size ++ " < " ++ toString needed else ""
  | dosMagic found => "Not a DOS/PE file (bad magic: 0x" ++ Text.upperHex 4 found.toNat ++ ")"
  | optionalMagic found expected =>
    "Unexpected optional header magic 0x" ++ Text.upperHex 4 found.toNat
      ++ " (expected 0x" ++ Text.upperHex 4 expected.toNat ++ ")"
  | outside error => error.message

/-- Reads a record of a kind at an offset. -/
def read {α : Type} (c : Codec α) (kind : RecordKind) (data : Bytes) (offset : Int) :
    Except RecordError α :=
  c.readOr data offset (.tooShort kind data.size (offset + c.size)) .outside

/-- Reads a record whose first word is a magic number, with the failure `wrong` if it is not the one
expected. The words that matter are read one by one, the magic number first. -/
def readMarked {α : Type} (c : Codec α) (kind : RecordKind) (expected : Int)
    (wrong : Int → RecordError) (data : Bytes) (offset : Int) : Except RecordError α := do
  if data.size < offset + c.size then throw (.tooShort kind data.size (offset + c.size))
  let magic ← (Word.u16.read .little data offset).mapError .outside
  if magic ≠ expected then throw (wrong magic)
  (c.readEach data offset).mapError .outside

/-- At a non-negative offset a record with a magic number is read as a whole, and then its magic
number is looked at. -/
theorem readMarked_natCast {α : Type} (c : Codec α) (kind : RecordKind) (expected : Int)
    (wrong : Int → RecordError) (magic : α → Int) (hsize : 2 ≤ c.size)
    (hmagic : ∀ bs, magic (c.ofRow (c.layout.decode c.order bs))
      = Word.u16.decode .little (bs.take 2))
    (data : Bytes) (n : Nat) :
    readMarked c kind expected wrong data n
      = (read c kind data n).bind fun a =>
          if magic a = expected then .ok a else .error (wrong (magic a)) := by
  unfold readMarked read
  rw [Codec.readOr_natCast]
  by_cases h : n + c.size ≤ data.size
  · have hword : Word.u16.read .little data n
        = .ok (Word.u16.decode .little (data.extract n (n + 2)).toList) := by
      rw [Word.read, Bytes.window_natCast, if_pos (by simp only [Word.u16]; omega)]
      rfl
    obtain ⟨rest, hrest⟩ : ∃ rest, c.size = 2 + rest := ⟨c.size - 2, by omega⟩
    have hread : c.read data n
        = .ok (c.ofRow (c.layout.decode c.order (data.extract n (n + c.size)).toList)) := by
      rw [Codec.read, Bytes.window_natCast, if_pos h]
      rfl
    -- the word that is read first is the one at the start of the record
    have hfound := hmagic (data.extract n (n + c.size)).toList
    rw [hrest, Bytes.take_extract, ← hrest] at hfound
    rw [if_pos h, if_neg (by omega), hword, c.readEach_natCast data n h, hread]
    simp only [Except.bind, hfound]
    generalize Word.u16.decode .little (data.extract n (n + 2)).toList = found
    -- both sides now ask the same of the same word
    by_cases heq : found = expected
    · subst heq
      rw [if_pos rfl]
      change (if found ≠ found then _ else _) = _
      rw [if_neg (fun h => h rfl)]
      rfl
    · rw [if_neg heq]
      change (if found ≠ expected then _ else _) = _
      rw [if_pos heq]
      rfl
  · rw [if_neg h, if_pos (by omega)]
    rfl

/-! ## DOS header -/

/-- The header that every image starts with. Only its mark and the place of the PE header matter. -/
structure DosHeader where
  /-- The letters `MZ`. -/
  magic : Int
  /-- The file offset of the PE signature. -/
  newHeaderOffset : Int
  deriving DecidableEq, Repr

namespace DosHeader

/-- The letters `MZ`, read as a word. -/
def expectedMagic : Int := 0x5A4D

/-- Two words with the bookkeeping of the DOS program between them. -/
def codec : Codec DosHeader where
  layout := [.word .u16, .gap 58, .word .u32]
  order := .little
  ofRow := fun (magic, offset, ()) => ⟨magic, offset⟩
  toRow := fun h => (h.magic, h.newHeaderOffset, ())

/-- The DOS header at an offset. -/
def decode : Bytes → Int → Except RecordError DosHeader :=
  readMarked codec .dosHeader expectedMagic .dosMagic

/-- At a non-negative offset the header is read as a whole. -/
theorem decode_natCast (data : Bytes) (n : Nat) :
    decode data n = (read codec .dosHeader data n).bind fun h =>
      if h.magic = expectedMagic then .ok h else .error (.dosMagic h.magic) :=
  readMarked_natCast codec .dosHeader expectedMagic .dosMagic (·.magic) (by decide)
    (fun _ => rfl) data n

end DosHeader

/-! ## COFF header -/

/-- The file header behind the PE signature. -/
structure CoffHeader where
  /-- The processor. -/
  machine : Int
  /-- How many section headers follow the optional header. -/
  sectionCount : Int
  /-- When the file was made. -/
  timeDateStamp : Int
  /-- The file offset of the symbol table; zero if there is none. -/
  symbolTableOffset : Int
  /-- How many symbols the symbol table has. -/
  symbolCount : Int
  /-- The size of the optional header. -/
  optionalHeaderSize : Int
  /-- Flags. -/
  characteristics : Int
  deriving DecidableEq, Repr

namespace CoffHeader

/-- Seven words without a gap. -/
def codec : Codec CoffHeader where
  layout := [.word .u16, .word .u16, .word .u32, .word .u32, .word .u32, .word .u16, .word .u16]
  order := .little
  ofRow := fun (machine, sections, time, symbols, count, size, flags, ()) =>
    ⟨machine, sections, time, symbols, count, size, flags⟩
  toRow := fun h => (h.machine, h.sectionCount, h.timeDateStamp, h.symbolTableOffset, h.symbolCount,
    h.optionalHeaderSize, h.characteristics, ())

/-- The COFF header at an offset. -/
def decode (data : Bytes) (offset : Int) : Except RecordError CoffHeader :=
  read codec .coffHeader data offset

/-- The size of a record of the symbol table. -/
def symbolSize : Int := 18

/-- The file offset of the string table, which follows the symbol table if there is one. -/
def stringTableOffset? (h : CoffHeader) : Option Int :=
  if h.symbolTableOffset = 0 then none else some (h.symbolTableOffset + h.symbolCount * symbolSize)

end CoffHeader

/-! ## Data directories -/

/-- Where one of the standard tables of an image lies. -/
structure DataDirectory where
  /-- The address of the table. -/
  virtualAddress : Int
  /-- The size of the table. -/
  size : Int
  deriving DecidableEq, Repr

namespace DataDirectory

/-- Two words. -/
def codec : Codec DataDirectory where
  layout := [.word .u32, .word .u32]
  order := .little
  ofRow := fun (address, size, ()) => ⟨address, size⟩
  toRow := fun d => (d.virtualAddress, d.size, ())

/-- The data directory at an offset. -/
def decode (data : Bytes) (offset : Int) : Except RecordError DataDirectory :=
  read codec .dataDirectory data offset

end DataDirectory

/-! ## Optional header -/

/-- The two layouts of the optional header. -/
inductive OptionalKind where
  /-- 32-bit addresses. -/
  | pe32
  /-- 64-bit addresses. -/
  | pe32Plus
  deriving DecidableEq, Repr

/-- The fixed part of the optional header, as far as it is needed here. -/
structure OptionalHeader where
  /-- Which layout the header has. -/
  magic : Int
  /-- The address of the first instruction. -/
  entryPoint : Int
  /-- Where the image is to be loaded. -/
  imageBase : Int
  /-- How many data directories follow. -/
  directoryCount : Int
  deriving DecidableEq, Repr

namespace OptionalKind

/-- The magic number of a layout. -/
def magic : OptionalKind → Int
  | pe32 => 0x10B
  | pe32Plus => 0x20B

/-- The layout with a given magic number. -/
def ofMagic? (magic : Int) : Option OptionalKind :=
  [pe32, pe32Plus].find? (·.magic = magic)

/-- What a layout is called. -/
def label : OptionalKind → String
  | pe32 => "OptionalHeader32"
  | pe32Plus => "OptionalHeader64"

/-- The fixed part in a layout. The layouts differ in the width and place of the image base, and in
the widths of what lies between it and the number of directories. -/
def layout : OptionalKind → Layout
  | pe32 => [.word .u16, .gap 14, .word .u32, .gap 8, .word .u32, .gap 60, .word .u32]
  | pe32Plus => [.word .u16, .gap 14, .word .u32, .gap 4, .word .u64, .gap 76, .word .u32]

end OptionalKind

namespace OptionalHeader

/-- The fixed part of 32 bits. -/
def codec32 : Codec OptionalHeader where
  layout := OptionalKind.pe32.layout
  order := .little
  ofRow := fun (magic, entry, base, count, ()) => ⟨magic, entry, base, count⟩
  toRow := fun h => (h.magic, h.entryPoint, h.imageBase, h.directoryCount, ())

/-- The fixed part of 64 bits. -/
def codec64 : Codec OptionalHeader where
  layout := OptionalKind.pe32Plus.layout
  order := .little
  ofRow := fun (magic, entry, base, count, ()) => ⟨magic, entry, base, count⟩
  toRow := fun h => (h.magic, h.entryPoint, h.imageBase, h.directoryCount, ())

/-- The fixed part in a layout. -/
def codec : OptionalKind → Codec OptionalHeader
  | .pe32 => codec32
  | .pe32Plus => codec64

/-- The optional header of a kind at an offset. -/
def decode (kind : OptionalKind) : Bytes → Int → Except RecordError OptionalHeader :=
  readMarked (codec kind) .optionalHeader kind.magic fun found => .optionalMagic found kind.magic

/-- At a non-negative offset the fixed part is read as a whole. -/
theorem decode_natCast (kind : OptionalKind) (data : Bytes) (n : Nat) :
    decode kind data n = (read (codec kind) .optionalHeader data n).bind fun h =>
      if h.magic = kind.magic then .ok h else .error (.optionalMagic h.magic kind.magic) :=
  readMarked_natCast (codec kind) .optionalHeader kind.magic
    (fun found => .optionalMagic found kind.magic) (·.magic) (by cases kind <;> decide)
    (by cases kind <;> exact fun _ => rfl) data n

/-- Whether the header says that addresses have 64 bits. -/
def isPe32Plus (h : OptionalHeader) : Bool := h.magic == OptionalKind.pe32Plus.magic

end OptionalHeader

/-! ## Section headers -/

/-- A section of an image. -/
structure SectionHeader where
  /-- The name field of eight bytes. -/
  name : List UInt8
  /-- The size in memory; some linkers leave it zero. -/
  virtualSize : Int
  /-- The address in memory. -/
  virtualAddress : Int
  /-- The size in the file. -/
  rawSize : Int
  /-- The offset in the file. -/
  rawOffset : Int
  /-- The file offset of the relocations. -/
  relocationsOffset : Int
  /-- The file offset of the line numbers. -/
  lineNumbersOffset : Int
  /-- How many relocations there are. -/
  relocationCount : Int
  /-- How many line numbers there are. -/
  lineNumberCount : Int
  /-- Flags. -/
  characteristics : Int
  deriving DecidableEq, Repr

namespace SectionHeader

/-- A name field and nine words. -/
def codec : Codec SectionHeader where
  layout := [.bytes 8, .word .u32, .word .u32, .word .u32, .word .u32, .word .u32, .word .u32,
    .word .u16, .word .u16, .word .u32]
  order := .little
  ofRow := fun (name, vsize, address, size, offset, relocs, lines, relocCount, lineCount, flags,
    ()) =>
    ⟨name, vsize, address, size, offset, relocs, lines, relocCount, lineCount, flags⟩
  toRow := fun h => (h.name, h.virtualSize, h.virtualAddress, h.rawSize, h.rawOffset,
    h.relocationsOffset, h.lineNumbersOffset, h.relocationCount, h.lineNumberCount,
    h.characteristics, ())

/-- The section header at an offset. -/
def decode (data : Bytes) (offset : Int) : Except RecordError SectionHeader :=
  read codec .sectionHeader data offset

/-- The name field as text. -/
def nameText (h : SectionHeader) : String := fixedName h.name

/-- The address behind the section in memory. -/
def endAddress (h : SectionHeader) : Int :=
  h.virtualAddress + if h.virtualSize = 0 then h.rawSize else h.virtualSize

/-- The address lies in the section. -/
def Holds (h : SectionHeader) (address : Int) : Prop :=
  h.virtualAddress ≤ address ∧ address < h.endAddress

instance (h : SectionHeader) (address : Int) : Decidable (h.Holds address) := by
  unfold Holds
  infer_instance

end SectionHeader

/-! ## Import descriptors -/

/-- One imported library. -/
structure ImportDescriptor where
  /-- The address of the lookup table; some linkers leave it zero. -/
  lookupTable : Int
  /-- When the import was bound. -/
  timeDateStamp : Int
  /-- The first forwarded import. -/
  forwarderChain : Int
  /-- The address of the library's name. -/
  name : Int
  /-- The address of the address table, which holds the same entries in the file. -/
  addressTable : Int
  deriving DecidableEq, Repr

namespace ImportDescriptor

/-- Five words. -/
def codec : Codec ImportDescriptor where
  layout := [.word .u32, .word .u32, .word .u32, .word .u32, .word .u32]
  order := .little
  ofRow := fun (lookup, time, chain, name, address, ()) => ⟨lookup, time, chain, name, address⟩
  toRow := fun d =>
    (d.lookupTable, d.timeDateStamp, d.forwarderChain, d.name, d.addressTable, ())

/-- The import descriptor at an offset. -/
def decode (data : Bytes) (offset : Int) : Except RecordError ImportDescriptor :=
  read codec .importDescriptor data offset

/-- The entry that ends the table. -/
def IsTerminator (d : ImportDescriptor) : Prop :=
  d.lookupTable = 0 ∧ d.name = 0 ∧ d.addressTable = 0

instance (d : ImportDescriptor) : Decidable d.IsTerminator := by
  unfold IsTerminator
  infer_instance

/-- The address of the table that the names are read from. -/
def namesTable (d : ImportDescriptor) : Int :=
  if d.lookupTable = 0 then d.addressTable else d.lookupTable

end ImportDescriptor

end Provenance.Pe
