import Provenance.Elf.Record
import Provenance.Text.Ascii
import Provenance.Text.Numeral

/-!
# ELF files

* `Image.ofBytes` — the header and the sections of a file, or the first reason why it has none.
  Counts that do not fit the header are taken from the first section header.
* `Image.content` — the bytes of a section, refused if they are not all in the file.
* `Image.symbols`, `Image.dynamicEntries`, `Image.importedLibraries` — the tables that the first
  section of a type holds; a file without such a section has none.
-/

namespace Provenance.Elf

/-- The greatest number of sections that is accepted. -/
def maxSections : Int := 0x10000

/-- The name table index that stands for "see the first section header". -/
def extendedIndex : Int := 0xFFFF

/-- Why a file, or a table in it, cannot be read. -/
inductive ImageError where
  /-- A record cannot be read. -/
  | record (error : RecordError)
  /-- Section headers have a size that the class does not have. -/
  | entrySize (size : Int)
  /-- A section header is not in the file. -/
  | headerCutOff (index : Nat) (offset : Int)
  /-- There are too many sections. -/
  | tooManySections (count : Int)
  /-- The section that should hold the names does not exist. -/
  | nameTableIndex (index : Int)
  /-- The section that should hold the names is no string table. -/
  | nameTableType (index : Int)
  /-- A section, told by its name or its number, is not wholly in the file. -/
  | contentCutOff (label : String)
  /-- A section is not linked to a string table. -/
  | noStringTable (name : String)
  deriving DecidableEq, Repr

/-- The wording of a failure. -/
def ImageError.message : ImageError → String
  | record error => error.message
  | entrySize size => "Invalid section header entry size: " ++ toString size
  | headerCutOff index offset =>
    "Section header " ++ toString index ++ " at offset " ++ Text.signedHex offset ++ " is truncated"
  | tooManySections count =>
    "Section count (" ++ toString count ++ ") exceeds maximum (" ++ toString maxSections ++ ")"
  | nameTableIndex index => "Invalid section name table index: " ++ toString index
  | nameTableType index =>
    "Section name table (index " ++ toString index ++ ") is not a string table"
  | contentCutOff label => "Section " ++ label ++ " extends past end of file"
  | noStringTable name => "Section " ++ name ++ " does not link to a string table"

/-- A section with its name. -/
structure Section where
  /-- The place in the section table, from zero. -/
  index : Nat
  /-- The name. -/
  name : String
  /-- The header. -/
  header : SectionHeader
  deriving DecidableEq, Repr

/-- An ELF file. -/
structure Image where
  /-- The file. -/
  data : Bytes
  /-- Class and encoding. -/
  ident : Ident
  /-- The header. -/
  header : Header
  /-- The sections, in table order. -/
  sections : List Section
  deriving Repr

namespace Image

/-- The section header of a given number. -/
def readHeader (data : Bytes) (ident : Ident) (header : Header) (index : Nat) :
    Except ImageError SectionHeader :=
  let offset := header.sectionHeadersOffset + index * header.sectionHeaderSize
  (SectionHeader.decode ident data offset).mapError fun _ => .headerCutOff index offset

/-- The name of a section in the table of names: it ends with the table at the latest. -/
def sectionName (data : Bytes) (names : SectionHeader) (h : SectionHeader) : String :=
  data.cString (names.offset + h.name) (some names.endOffset)

/-- The sections with the given headers, named from a table if there is one. -/
def nameSections (data : Bytes) (names? : Option SectionHeader) (headers : List SectionHeader) :
    List Section :=
  headers.zipIdx.map fun (h, i) =>
    ⟨i, match names? with
      | none => ""
      | some names => sectionName data names h, h⟩

/-- The sections of a file with a given header. -/
def readSections (data : Bytes) (ident : Ident) (header : Header) :
    Except ImageError (List Section) := do
  if header.sectionHeadersOffset = 0 then return []
  if header.sectionHeaderSize ≠ (SectionHeader.codec ident).size then
    throw (.entrySize header.sectionHeaderSize)
  let first ← readHeader data ident header 0
  let count := if header.sectionHeaderCount = 0 then first.size else header.sectionHeaderCount
  let names := if header.nameTableIndex = extendedIndex then first.link else header.nameTableIndex
  if count = 0 then return []
  if maxSections < count then throw (.tooManySections count)
  if count ≤ names then throw (.nameTableIndex names)
  let headers ← (List.range count.toNat).mapM (readHeader data ident header)
  -- index zero stands for "no names"
  let names? := if names = 0 then none else headers[names.toNat]?
  if names?.any (·.type ≠ stringTableType) then throw (.nameTableType names)
  return nameSections data names? headers

/-- The header and the sections of a file. -/
def ofBytes (data : Bytes) : Except ImageError Image := do
  let ident ← (Ident.decode data).mapError .record
  let header ← (Header.decode ident data).mapError .record
  let sections ← readSections data ident header
  return ⟨data, ident, header, sections⟩

/-- The names of the sections, in table order. -/
def sectionNames (img : Image) : List String := img.sections.map (·.name)

/-- The first section with a given name. -/
def findSection? (img : Image) (name : String) : Option Section :=
  img.sections.find? (·.name = name)

/-- The section of a given number. -/
def section? (img : Image) (index : Int) : Option Section :=
  if index < 0 then none else img.sections[index.toNat]?

/-- The first section of a given type. -/
def sectionOfType? (img : Image) (type : Int) : Option Section :=
  img.sections.find? (·.header.type = type)

/-- The bytes of a section. -/
def content (img : Image) (s : Section) : Except ImageError Bytes :=
  if s.header.isNoBits then .ok #[]
  else if img.data.size < s.header.endOffset then
    .error (.contentCutOff (if s.name.isEmpty then toString s.index else s.name))
  else .ok (img.data.slice s.header.offset s.header.endOffset)

/-- The bytes of the string table that a section is linked to. -/
def linkedStrings (img : Image) (s : Section) : Except ImageError Bytes :=
  match img.section? s.header.link with
  | none => .error (.noStringTable s.name)
  | some table =>
    if table.header.type = stringTableType then img.content table
    else .error (.noStringTable s.name)

/-- What `read` makes of the entries from number `first` on of a table whose entries have `size`
bytes; a part of an entry at the end is left out. -/
def readEntries {α : Type} (first size : Nat) (content : Bytes)
    (read : Int → Except RecordError α) : Except ImageError (List α) :=
  (List.range' first (content.size / size - first)).mapM fun (i : Nat) =>
    (read (i * size)).mapError .record

/-- The symbols with their names, without the empty one that the table starts with. -/
def symbols (img : Image) : Except ImageError (List (String × Symbol)) :=
  match img.sectionOfType? symbolTableType with
  | none => .ok []
  | some table => do
    let strings ← img.linkedStrings table
    let content ← img.content table
    readEntries 1 (Symbol.codec img.ident).size content fun offset => do
      let s ← Symbol.decode img.ident content offset
      return (strings.cString s.name none, s)

/-- The names of the symbols. -/
def symbolNames (img : Image) : Except ImageError (List String) :=
  img.symbols.map fun found => found.map (·.1)

/-- The dynamic entries before the one that ends the table. -/
def dynamicEntries (img : Image) : Except ImageError (List DynamicEntry) :=
  match img.sectionOfType? dynamicType with
  | none => .ok []
  | some table => do
    let content ← img.content table
    let entries ← readEntries 0 (DynamicEntry.codec img.ident).size content
      (DynamicEntry.decode img.ident content)
    return entries.takeWhile (·.tag ≠ DynamicEntry.endTag)

/-- The names of the libraries that the file needs, in table order. -/
def importedLibraries (img : Image) : Except ImageError (List String) :=
  match img.sectionOfType? dynamicType with
  | none => .ok []
  | some table => do
    let strings ← img.linkedStrings table
    let entries ← img.dynamicEntries
    return (entries.filter (·.tag = DynamicEntry.neededTag)).map fun e =>
      strings.cString e.value none

end Image

end Provenance.Elf
