import Provenance.Proofs.Elf.Reader
import Provenance.Proofs.Strings

/-!
# Files that are ELF files

Which files are ELF files, told from the bytes at each place and not from a run of the reader, and
which sections such a file has. All places behind the identification bytes depend on the class of
the file, which tells the width of an address.

* `Identifies` — the identification bytes are those of a class and a byte order.
* `TableFits` — the section table can be read: there is none, or it is empty, or all of it is there
  and the names are in a string table.
* `headerIn`, `sectionIn` — the header and the sections that stand at these places.
* `readSections_eq_ok_iff` — the section table is read exactly when it fits.
* `sections_read_exactly_when_table_fits` — the reader accepts the identified files whose header and
  section table fit, and no other.
-/

namespace Provenance.Elf

/-!
## Places

The fields of the headers at their places in the file, told by class and byte order without the
reader. The two escapes are here as well: a count of zero and a number of 0xFFFF send the reader to
the first section header.
-/

/-- The identification byte of a class. -/
def FileClass.byte : FileClass → UInt8
  | class32 => 1
  | class64 => 2

/-- The identification byte of a byte order. -/
def encodingByte : ByteOrder → UInt8
  | .little => 1
  | .big => 2

/-- The number of bytes of an address. -/
def FileClass.width : FileClass → Nat
  | class32 => 4
  | class64 => 8

/-- The number of bytes of the file header. -/
def FileClass.headerSize : FileClass → Nat
  | class32 => 52
  | class64 => 64

/-- The number of bytes of a section header. -/
def FileClass.sectionSize : FileClass → Nat
  | class32 => 40
  | class64 => 64

section Places

variable (data : Bytes) (fileClass : FileClass) (order : ByteOrder)

/-- The file starts with the identification bytes of a class and a byte order. -/
structure Identifies : Prop where
  size : 16 ≤ data.size
  mark : data.HoldsAt 0 [0x7F, 0x45, 0x4C, 0x46]
  fileClass : data[4]? = some fileClass.byte
  encoding : data[5]? = some (encodingByte order)
  version : data[6]? = some (1 : UInt8)

/-- The file offset of the section table; zero if there is none. -/
def tableStart : Nat := data.number order (24 + 2 * fileClass.width) fileClass.width

/-- The distance from one section header to the next. -/
def stride : Nat := data.number order (34 + 3 * fileClass.width) 2

/-- The place of the section header of a number. -/
def sectionPlace (i : Nat) : Nat :=
  tableStart data fileClass order + i * stride data fileClass order

/-- How many sections the file header tells; zero stands for "see the first section header". -/
def headerCount : Nat := data.number order (36 + 3 * fileClass.width) 2

/-- The number of the section of the names in the file header; 0xFFFF stands for "see the first
section header". -/
def headerNames : Nat := data.number order (38 + 3 * fileClass.width) 2

/-- The section header at a place. -/
def sectionAt (place : Nat) : SectionHeader where
  name := data.number order place 4
  type := data.number order (place + 4) 4
  flags := data.number order (place + 8) fileClass.width
  address := data.number order (place + 8 + fileClass.width) fileClass.width
  offset := data.number order (place + 8 + 2 * fileClass.width) fileClass.width
  size := data.number order (place + 8 + 3 * fileClass.width) fileClass.width
  link := data.number order (place + 8 + 4 * fileClass.width) 4
  info := data.number order (place + 12 + 4 * fileClass.width) 4
  alignment := data.number order (place + 16 + 4 * fileClass.width) fileClass.width
  entrySize := data.number order (place + 16 + 5 * fileClass.width) fileClass.width

/-- How many sections there are. If the file header tells zero, it is the size of the first one. -/
def sectionTotal : Nat :=
  if headerCount data fileClass order = 0 then
    data.number order (tableStart data fileClass order + 8 + 3 * fileClass.width) fileClass.width
  else headerCount data fileClass order

/-- The number of the section of the names. If the file header tells 0xFFFF, it is the link of the
first one. -/
def namesNumber : Nat :=
  if headerNames data fileClass order = 0xFFFF then
    data.number order (tableStart data fileClass order + 8 + 4 * fileClass.width) 4
  else headerNames data fileClass order

/-- All section headers of a table are in the file, and the names are those of a string table; the
number zero stands for no names. -/
structure HeadersFit : Prop where
  count : sectionTotal data fileClass order ≤ 65536
  names : namesNumber data fileClass order < sectionTotal data fileClass order
  within : tableStart data fileClass order
    + sectionTotal data fileClass order * fileClass.sectionSize ≤ data.size
  strings : namesNumber data fileClass order = 0 ∨
    data.number order (sectionPlace data fileClass order (namesNumber data fileClass order) + 4) 4
      = 3

/-- There is a first section header, and the table that it starts is empty or fits. -/
structure HasTable : Prop where
  stride : stride data fileClass order = fileClass.sectionSize
  first : tableStart data fileClass order + fileClass.sectionSize ≤ data.size
  headers : sectionTotal data fileClass order = 0 ∨ HeadersFit data fileClass order

/-- The section table can be read: there is none, or it fits. -/
def TableFits : Prop := tableStart data fileClass order = 0 ∨ HasTable data fileClass order

/-- The name of a section: the string at its place in the section of the names. It ends with that
section or with the file at the latest, and it is empty where there are no names. -/
def nameAt (i : Nat) : String :=
  if namesNumber data fileClass order = 0 then ""
  else
    let names := sectionPlace data fileClass order (namesNumber data fileClass order)
    let start := data.number order (names + 8 + 2 * fileClass.width) fileClass.width
    let size := data.number order (names + 8 + 3 * fileClass.width) fileClass.width
    let name := data.number order (sectionPlace data fileClass order i) 4
    asciiText ((data.extract (start + name) (start + size)).toList.takeWhile (· ≠ 0))

/-- The section of a number. -/
def sectionIn (i : Nat) : Section where
  index := i
  name := nameAt data fileClass order i
  header := sectionAt data fileClass order (sectionPlace data fileClass order i)

/-- The sections of a file, in table order. -/
def sectionsIn : List Section :=
  if tableStart data fileClass order = 0 then []
  else (List.range (sectionTotal data fileClass order)).map (sectionIn data fileClass order)

end Places

/-! ## Identification -/

/-- A class is told by its own code and by no other. -/
theorem FileClass.ofCode?_eq_some_iff {n : Int} {fileClass : FileClass} :
    FileClass.ofCode? n = some fileClass ↔ n = fileClass.code := by
  unfold FileClass.ofCode?
  constructor
  · intro h
    have hcode := List.find?_some h
    exact (of_decide_eq_true hcode).symm
  · rintro rfl
    cases fileClass <;> rfl

/-- A byte order is told by its own code and by no other. -/
theorem encodingOfCode?_eq_some_iff {n : Int} {order : ByteOrder} :
    encodingOfCode? n = some order ↔ n = encodingCode order := by
  unfold encodingOfCode?
  constructor
  · intro h
    have hcode := List.find?_some h
    exact (of_decide_eq_true hcode).symm
  · rintro rfl
    cases order <;> rfl

/-- Codes are accepted exactly when they are those of an identification. -/
theorem Ident.ofCodes_eq_ok_iff {codes : IdentCodes} {ident : Ident} :
    Ident.ofCodes codes = .ok ident ↔ codes = ident.codes := by
  constructor
  · intro h
    unfold Ident.ofCodes at h
    split at h
    next => cases h
    next => cases h
    next fileClass order hclass horder =>
      by_cases hversion : codes.version = Ident.version
      · rw [if_pos hversion] at h
        cases h
        -- class and byte order were found by their codes
        have hclass := FileClass.ofCode?_eq_some_iff.mp hclass
        have horder := encodingOfCode?_eq_some_iff.mp horder
        obtain ⟨fileClassCode, encoding, version, osAbi⟩ := codes
        cases hclass
        cases horder
        cases hversion
        rfl
      · rw [if_neg hversion] at h
        cases h
  · rintro rfl
    exact ident.ofCodes_codes

section Header

variable {data : Bytes} {ident : Ident}

theorem getElem?_eq_some_iff_toNat {i n : Nat} {b : UInt8} (hi : i < data.size) (hb : b.toNat = n) :
    data[i]? = some b ↔ ((data.getD i 0).toNat : Int) = n := by
  have hget : data[i]? = some (data.getD i 0) := by
    rw [Array.getD_eq_getD_getElem?, Array.getElem?_eq_getElem hi]
    rfl
  rw [hget, Option.some.injEq, ← UInt8.toNat_inj, hb, Int.natCast_inj]

/-- The numbers among the identification bytes are those of an identification exactly when they are
the bytes of its class and its byte order. -/
theorem ofBytes_eq_codes_iff (hsize : 16 ≤ data.size) :
    IdentCodes.ofBytes data = ident.codes ↔
      data[4]? = some ident.fileClass.byte ∧ data[5]? = some (encodingByte ident.order)
        ∧ data[6]? = some (1 : UInt8) ∧ ((data.getD 7 0).toNat : Int) = ident.osAbi := by
  obtain ⟨fileClass, order, osAbi⟩ := ident
  -- each code is the number of the byte that stands for the class, the byte order or the version
  have hclass : data[4]? = some fileClass.byte ↔
      ((data.getD 4 0).toNat : Int) = fileClass.code := by
    cases fileClass
    · exact getElem?_eq_some_iff_toNat (by omega) rfl
    · exact getElem?_eq_some_iff_toNat (by omega) rfl
  have hencoding : data[5]? = some (encodingByte order) ↔
      ((data.getD 5 0).toNat : Int) = encodingCode order := by
    cases order
    · exact getElem?_eq_some_iff_toNat (by omega) rfl
    · exact getElem?_eq_some_iff_toNat (by omega) rfl
  have hversion : data[6]? = some (1 : UInt8) ↔
      ((data.getD 6 0).toNat : Int) = Ident.version :=
    getElem?_eq_some_iff_toNat (by omega) rfl
  unfold IdentCodes.ofBytes Ident.codes
  simp only [IdentCodes.mk.injEq]
  rw [hclass, hencoding, hversion]

/-- The reader asks for the four bytes of the mark. -/
theorem startsWith_mark_iff (hsize : 16 ≤ data.size) :
    data.startsWith Ident.mark = true ↔ data.HoldsAt 0 [0x7F, 0x45, 0x4C, 0x46] := by
  have hfour : Ident.mark.length ≤ data.size := by
    have hlength : Ident.mark.length = 4 := rfl
    omega
  exact Bytes.startsWith_iff_holdsAt hfour

/-- An identification is read exactly from the bytes of its class and its byte order. -/
theorem decode_ident_eq_ok_iff :
    Ident.decode data = .ok ident ↔
      Identifies data ident.fileClass ident.order
        ∧ ((data.getD 7 0).toNat : Int) = ident.osAbi := by
  unfold Ident.decode
  constructor
  · intro h
    obtain ⟨hshort, h⟩ := ite_error_eq_ok_iff.mp h
    obtain ⟨hmark, h⟩ := ite_error_eq_ok_iff.mp h
    have hsize : 16 ≤ data.size := Nat.not_lt.mp hshort
    obtain ⟨hclass, hencoding, hversion, hosAbi⟩ :=
      (ofBytes_eq_codes_iff hsize).mp (Ident.ofCodes_eq_ok_iff.mp h)
    have hstarts := (startsWith_mark_iff hsize).mp (Decidable.not_not.mp hmark)
    exact ⟨⟨hsize, hstarts, hclass, hencoding, hversion⟩, hosAbi⟩
  -- the checks are passed one after the other
  · rintro ⟨h, hosAbi⟩
    have hmark := (startsWith_mark_iff h.size).mpr h.mark
    have hcodes := (ofBytes_eq_codes_iff h.size).mpr ⟨h.fileClass, h.encoding, h.version, hosAbi⟩
    refine ite_error_eq_ok_iff.mpr ⟨Nat.not_lt.mpr h.size, ?_⟩
    refine ite_error_eq_ok_iff.mpr ⟨Decidable.not_not.mpr hmark, ?_⟩
    exact Ident.ofCodes_eq_ok_iff.mpr hcodes

/-! ## File header -/

theorem codec_size (ident : Ident) : (Header.codec ident).size = ident.fileClass.headerSize := by
  obtain ⟨fileClass, order, osAbi⟩ := ident
  cases fileClass <;> rfl

theorem sectionCodec_size (ident : Ident) :
    (SectionHeader.codec ident).size = ident.fileClass.sectionSize := by
  obtain ⟨fileClass, order, osAbi⟩ := ident
  cases fileClass <;> rfl

/-- The header that a file starts with. -/
def headerIn (data : Bytes) (ident : Ident) : Header :=
  let width := ident.fileClass.width
  let number := data.number ident.order
  { ident := (data.extract 0 16).toList
    type := number 16 2
    machine := number 18 2
    version := number 20 4
    entry := number 24 width
    programHeadersOffset := number (24 + width) width
    sectionHeadersOffset := tableStart data ident.fileClass ident.order
    flags := number (24 + 3 * width) 4
    headerSize := number (28 + 3 * width) 2
    programHeaderSize := number (30 + 3 * width) 2
    programHeaderCount := number (32 + 3 * width) 2
    sectionHeaderSize := stride data ident.fileClass ident.order
    sectionHeaderCount := headerCount data ident.fileClass ident.order
    nameTableIndex := headerNames data ident.fileClass ident.order }

/-- The fields of the header are numbers, each at the place that its class gives it. -/
theorem recordAt_header (data : Bytes) (ident : Ident) :
    (Header.codec ident).recordAt data 0 = headerIn data ident := by
  obtain ⟨fileClass, order, osAbi⟩ := ident
  -- one field: it is cut out of the record, and the record out of the file
  have hword : ∀ (w : Word) (size skipped : Nat), w.signed = false → skipped + w.width ≤ size →
      w.decode order (((data.extract 0 (0 + size)).toList.drop skipped).take w.width)
        = data.number order (0 + skipped) w.width :=
    fun w size skipped hunsigned hfits =>
      w.decode_drop_take order data 0 size skipped hunsigned hfits
  simp only [Codec.recordAt, Header.codec, Layout.decode, List.drop_drop]
  unfold headerIn
  rw [Header.mk.injEq]
  -- the two classes differ in the width of the three addresses, and so in all places behind them
  cases fileClass with
  | class32 =>
    exact ⟨data.take_extract 0 16 36, hword .u16 52 16 rfl (by decide),
      hword .u16 52 18 rfl (by decide), hword .u32 52 20 rfl (by decide),
      hword .u32 52 24 rfl (by decide), hword .u32 52 28 rfl (by decide),
      hword .u32 52 32 rfl (by decide), hword .u32 52 36 rfl (by decide),
      hword .u16 52 40 rfl (by decide), hword .u16 52 42 rfl (by decide),
      hword .u16 52 44 rfl (by decide), hword .u16 52 46 rfl (by decide),
      hword .u16 52 48 rfl (by decide), hword .u16 52 50 rfl (by decide)⟩
  | class64 =>
    exact ⟨data.take_extract 0 16 48, hword .u16 64 16 rfl (by decide),
      hword .u16 64 18 rfl (by decide), hword .u32 64 20 rfl (by decide),
      hword .u64 64 24 rfl (by decide), hword .u64 64 32 rfl (by decide),
      hword .u64 64 40 rfl (by decide), hword .u32 64 48 rfl (by decide),
      hword .u16 64 52 rfl (by decide), hword .u16 64 54 rfl (by decide),
      hword .u16 64 56 rfl (by decide), hword .u16 64 58 rfl (by decide),
      hword .u16 64 60 rfl (by decide), hword .u16 64 62 rfl (by decide)⟩

/-- The header is read exactly when the file is long enough for it. -/
theorem decode_header_eq (data : Bytes) (ident : Ident) :
    Header.decode ident data =
      if ident.fileClass.headerSize ≤ data.size then .ok (headerIn data ident)
      else .error (.headerTooShort data.size ident.fileClass.headerSize) := by
  have hread := (Header.codec ident).readOr_eq data 0
    (RecordError.headerTooShort data.size (Header.codec ident).size) .outside
  rw [Nat.zero_add, codec_size, recordAt_header] at hread
  rw [Header.decode, codec_size]
  exact hread

/-- The only header that is ever decoded is the one that the file starts with. -/
theorem header_of_decode {header : Header} (h : Header.decode ident data = .ok header) :
    header = headerIn data ident ∧ ident.fileClass.headerSize ≤ data.size := by
  rw [decode_header_eq] at h
  by_cases hlong : ident.fileClass.headerSize ≤ data.size
  · rw [if_pos hlong] at h
    cases h
    exact ⟨rfl, hlong⟩
  · rw [if_neg hlong] at h
    cases h

/-! ## Section headers -/

/-- The fields of a section header are numbers, each at its place behind the first. -/
theorem recordAt_section (data : Bytes) (ident : Ident) (place : Nat) :
    (SectionHeader.codec ident).recordAt data place
      = sectionAt data ident.fileClass ident.order place := by
  obtain ⟨fileClass, order, osAbi⟩ := ident
  -- the words stand one behind the other, and each is the number at its own place
  have hword : ∀ (w : Word) (size skipped : Nat), w.signed = false → skipped + w.width ≤ size →
      w.decode order (((data.extract place (place + size)).toList.drop skipped).take w.width)
        = data.number order (place + skipped) w.width :=
    fun w size skipped hunsigned hfits =>
      w.decode_drop_take order data place size skipped hunsigned hfits
  simp only [Codec.recordAt, SectionHeader.codec, Layout.decode, List.drop_drop]
  unfold sectionAt
  rw [SectionHeader.mk.injEq]
  -- in either class, ten fields
  cases fileClass
  · exact ⟨hword .u32 40 0 rfl (by decide), hword .u32 40 4 rfl (by decide),
      hword .u32 40 8 rfl (by decide), hword .u32 40 12 rfl (by decide),
      hword .u32 40 16 rfl (by decide), hword .u32 40 20 rfl (by decide),
      hword .u32 40 24 rfl (by decide), hword .u32 40 28 rfl (by decide),
      hword .u32 40 32 rfl (by decide), hword .u32 40 36 rfl (by decide)⟩
  · exact ⟨hword .u32 64 0 rfl (by decide), hword .u32 64 4 rfl (by decide),
      hword .u64 64 8 rfl (by decide), hword .u64 64 16 rfl (by decide),
      hword .u64 64 24 rfl (by decide), hword .u64 64 32 rfl (by decide),
      hword .u32 64 40 rfl (by decide), hword .u32 64 44 rfl (by decide),
      hword .u64 64 48 rfl (by decide), hword .u64 64 56 rfl (by decide)⟩

end Header

/-!
## Section table

The checks on the table come in a fixed order. They are passed exactly when the headers fit the
file and the section of the names, if one is given, is among them.
-/

section Table

variable {data : Bytes} {ident : Ident}

/-- The reader computes the place of a section header from the file header. -/
theorem headerIn_offset (data : Bytes) (ident : Ident) (i : Nat) :
    (headerIn data ident).sectionHeadersOffset + i * (headerIn data ident).sectionHeaderSize
      = (sectionPlace data ident.fileClass ident.order i : Nat) := by
  unfold headerIn sectionPlace
  push_cast
  rfl

/-- A section header is read exactly when it ends within the file. -/
theorem readHeader_eq (data : Bytes) (ident : Ident) (i : Nat) :
    Image.readHeader data ident (headerIn data ident) i =
      if sectionPlace data ident.fileClass ident.order i + ident.fileClass.sectionSize ≤ data.size
      then .ok (sectionAt data ident.fileClass ident.order
        (sectionPlace data ident.fileClass ident.order i))
      else .error (.headerCutOff i (sectionPlace data ident.fileClass ident.order i)) := by
  have hread := (SectionHeader.codec ident).readOr_eq data
    (sectionPlace data ident.fileClass ident.order i) (RecordError.tooShort .sectionHeader) .outside
  rw [sectionCodec_size, recordAt_section] at hread
  unfold Image.readHeader
  simp only [headerIn_offset]
  unfold SectionHeader.decode read
  rw [hread]
  split <;> rfl

theorem sectionPlace_zero (data : Bytes) (fileClass : FileClass) (order : ByteOrder) :
    sectionPlace data fileClass order 0 = tableStart data fileClass order := by
  unfold sectionPlace
  rw [Nat.zero_mul, Nat.add_zero]

/-- The reader takes the count from where the file header says. -/
theorem sectionCount_eq (data : Bytes) (ident : Ident) :
    Image.sectionCount (headerIn data ident)
        (sectionAt data ident.fileClass ident.order (tableStart data ident.fileClass ident.order))
      = sectionTotal data ident.fileClass ident.order := by
  have hfield : (headerIn data ident).sectionHeaderCount
      = headerCount data ident.fileClass ident.order := rfl
  unfold Image.sectionCount sectionTotal
  rw [hfield]
  -- a count of zero sends the reader to the size in the first section header
  by_cases hzero : headerCount data ident.fileClass ident.order = 0
  · rw [if_pos hzero, if_pos (by rw [hzero]; rfl)]
    rfl
  · rw [if_neg hzero, if_neg (by omega)]

/-- The reader takes the number of the names from where the file header says. -/
theorem nameIndex_eq (data : Bytes) (ident : Ident) :
    Image.nameIndex (headerIn data ident)
        (sectionAt data ident.fileClass ident.order (tableStart data ident.fileClass ident.order))
      = namesNumber data ident.fileClass ident.order := by
  have hfield : (headerIn data ident).nameTableIndex
      = headerNames data ident.fileClass ident.order := rfl
  unfold Image.nameIndex namesNumber extendedIndex
  rw [hfield]
  -- the number 0xFFFF sends the reader to the link in the first section header
  by_cases hextended : headerNames data ident.fileClass ident.order = 0xFFFF
  · rw [if_pos hextended, if_pos (by rw [hextended]; rfl)]
    rfl
  · rw [if_neg hextended, if_neg (by omega)]

/-- The headers of all sections, in table order. -/
def headersIn (data : Bytes) (fileClass : FileClass) (order : ByteOrder) : List SectionHeader :=
  (List.range (sectionTotal data fileClass order)).map fun i =>
    sectionAt data fileClass order (sectionPlace data fileClass order i)

/-- The header of the section of the names, if there are names. -/
def namesIn? (data : Bytes) (fileClass : FileClass) (order : ByteOrder) : Option SectionHeader :=
  if namesNumber data fileClass order = 0 then none
  else some (sectionAt data fileClass order
    (sectionPlace data fileClass order (namesNumber data fileClass order)))

/-- All sections of a table are in the file when the last one is. -/
theorem sections_le_iff {fileClass : FileClass} {order : ByteOrder} {count : Nat}
    (hstride : stride data fileClass order = fileClass.sectionSize) (hpos : 0 < count) :
    (∀ i ∈ List.range count,
        sectionPlace data fileClass order i + fileClass.sectionSize ≤ data.size) ↔
      tableStart data fileClass order + count * fileClass.sectionSize ≤ data.size := by
  have hend : ∀ i, sectionPlace data fileClass order i + fileClass.sectionSize
      = tableStart data fileClass order + (i + 1) * fileClass.sectionSize := by
    intro i
    rw [sectionPlace, hstride, Nat.add_assoc, Nat.succ_mul]
  -- the last section is the one that ends last
  constructor
  · intro h
    have hlast := h (count - 1) (List.mem_range.mpr (by omega))
    rwa [hend, Nat.sub_add_cancel hpos] at hlast
  · intro h i hi
    have hmul : (i + 1) * fileClass.sectionSize ≤ count * fileClass.sectionSize :=
      Nat.mul_le_mul_right _ (List.mem_range.mp hi)
    rw [hend]
    omega

/-- All section headers are read exactly when the last of them ends within the file. -/
theorem mapM_readHeader_eq_ok_iff
    (hstride : stride data ident.fileClass ident.order = ident.fileClass.sectionSize)
    (hpos : 0 < sectionTotal data ident.fileClass ident.order) {headers : List SectionHeader} :
    (List.range (sectionTotal data ident.fileClass ident.order)).mapM
        (Image.readHeader data ident (headerIn data ident)) = .ok headers ↔
      tableStart data ident.fileClass ident.order
          + sectionTotal data ident.fileClass ident.order * ident.fileClass.sectionSize ≤ data.size
        ∧ headers = headersIn data ident.fileClass ident.order := by
  rw [mapM_ite_eq_ok_iff (readHeader_eq data ident), sections_le_iff hstride hpos]
  rfl

/-- The section of the names is looked up by its number among all section headers. -/
theorem nameTable?_eq {fileClass : FileClass} {order : ByteOrder} {header : Header}
    {first : SectionHeader}
    (hindex : Image.nameIndex header first = namesNumber data fileClass order)
    (hnames : namesNumber data fileClass order < sectionTotal data fileClass order) :
    Image.nameTable? header first (headersIn data fileClass order)
      = namesIn? data fileClass order := by
  unfold Image.nameTable? namesIn?
  rw [hindex]
  by_cases hzero : namesNumber data fileClass order = 0
  · rw [if_pos hzero, if_pos (by rw [hzero]; rfl)]
  · -- the number is that of a section, so that its header is among those of all sections
    rw [if_neg hzero, if_neg (by omega), Int.toNat_natCast, headersIn, List.getElem?_map,
      List.getElem?_range hnames]
    rfl

/-- The check of the reader on the section of the names. -/
theorem not_any_namesIn?_iff {fileClass : FileClass} {order : ByteOrder} :
    ¬ (namesIn? data fileClass order).any (·.type ≠ stringTableType) = true ↔
      namesNumber data fileClass order = 0 ∨
        data.number order
          (sectionPlace data fileClass order (namesNumber data fileClass order) + 4) 4 = 3 := by
  unfold namesIn?
  by_cases hzero : namesNumber data fileClass order = 0
  · simp [hzero]
  -- only the type of that section is asked for
  · rw [if_neg hzero, Option.any_some, decide_eq_true_eq, Decidable.not_not, or_iff_right hzero]
    exact Int.ofNat_inj

/-- A name is looked up from its place on, up to the end of the section of the names. -/
theorem sectionName_eq (data : Bytes) (fileClass : FileClass) (order : ByteOrder) (i : Nat)
    (hzero : namesNumber data fileClass order ≠ 0) :
    Image.sectionName data
        (sectionAt data fileClass order
          (sectionPlace data fileClass order (namesNumber data fileClass order)))
        (sectionAt data fileClass order (sectionPlace data fileClass order i))
      = nameAt data fileClass order i := by
  rw [nameAt, if_neg hzero]
  exact data.cString_eq _ _

/-- The reader gives each section its number, its name and its header. -/
theorem nameSections_eq (data : Bytes) (fileClass : FileClass) (order : ByteOrder) :
    Image.nameSections data (namesIn? data fileClass order) (headersIn data fileClass order)
      = (List.range (sectionTotal data fileClass order)).map (sectionIn data fileClass order) := by
  apply List.ext_getElem
  · simp [Image.nameSections, headersIn]
  -- section by section, with names and without
  · intro i _ _
    by_cases hzero : namesNumber data fileClass order = 0
    · simp [Image.nameSections, headersIn, sectionIn, namesIn?, nameAt, hzero]
    · simp [Image.nameSections, headersIn, sectionIn, namesIn?, hzero, sectionName_eq]

/-- What the reader makes of a section table behind the first header. -/
def readBehind (data : Bytes) (ident : Ident) (first : SectionHeader) :
    Except ImageError (List Section) :=
  let header := headerIn data ident
  if Image.sectionCount header first = 0 then .ok []
  else if maxSections < Image.sectionCount header first then
    .error (.tooManySections (Image.sectionCount header first))
  else if Image.sectionCount header first ≤ Image.nameIndex header first then
    .error (.nameTableIndex (Image.nameIndex header first))
  else
    ((List.range (Image.sectionCount header first).toNat).mapM
        (Image.readHeader data ident header)).bind fun headers =>
      if (Image.nameTable? header first headers).any (·.type ≠ stringTableType) then
        .error (.nameTableType (Image.nameIndex header first))
      else .ok (Image.nameSections data (Image.nameTable? header first headers) headers)

/-- Behind the first header, the reader goes on exactly if the table is empty or fits. -/
theorem readBehind_eq_ok_iff
    (hstride : stride data ident.fileClass ident.order = ident.fileClass.sectionSize)
    {sections : List Section} :
    readBehind data ident
        (sectionAt data ident.fileClass ident.order (tableStart data ident.fileClass ident.order))
          = .ok sections ↔
      (sectionTotal data ident.fileClass ident.order = 0
          ∨ HeadersFit data ident.fileClass ident.order)
        ∧ sections = (List.range (sectionTotal data ident.fileClass ident.order)).map
          (sectionIn data ident.fileClass ident.order) := by
  have hindex := nameIndex_eq data ident
  unfold readBehind
  simp only [sectionCount_eq, hindex]
  by_cases hempty : sectionTotal data ident.fileClass ident.order = 0
  · -- an empty table asks for nothing more
    rw [if_pos (by rw [hempty]; rfl), hempty, Except.ok.injEq]
    simp [eq_comm]
  have hpos : 0 < sectionTotal data ident.fileClass ident.order := Nat.pos_of_ne_zero hempty
  rw [if_neg (by omega), or_iff_right hempty]
  constructor
  · intro h
    -- the checks in their order: not too many, names among them, all there, names in strings
    obtain ⟨hcount, h⟩ := ite_error_eq_ok_iff.mp h
    obtain ⟨hnames, h⟩ := ite_error_eq_ok_iff.mp h
    have hnames := Int.ofNat_lt.mp (Int.not_le.mp hnames)
    obtain ⟨headers, hread, h⟩ := bind_eq_ok_iff.mp h
    obtain ⟨hwithin, rfl⟩ := (mapM_readHeader_eq_ok_iff hstride hpos).mp hread
    rw [nameTable?_eq hindex hnames, nameSections_eq] at h
    obtain ⟨hstrings, h⟩ := ite_error_eq_ok_iff.mp h
    cases h
    exact ⟨⟨Int.ofNat_le.mp (Int.not_lt.mp hcount), hnames, hwithin,
      not_any_namesIn?_iff.mp hstrings⟩, rfl⟩
  · rintro ⟨h, rfl⟩
    have hread := (mapM_readHeader_eq_ok_iff hstride hpos).mpr ⟨h.within, rfl⟩
    refine ite_error_eq_ok_iff.mpr ⟨Int.not_lt.mpr (Int.ofNat_le.mpr h.count), ?_⟩
    refine ite_error_eq_ok_iff.mpr ⟨Int.not_le.mpr (Int.ofNat_lt.mpr h.names), ?_⟩
    refine bind_eq_ok_iff.mpr ⟨_, hread, ?_⟩
    rw [nameTable?_eq hindex h.names, nameSections_eq]
    exact ite_error_eq_ok_iff.mpr ⟨not_any_namesIn?_iff.mpr h.strings, rfl⟩

/-- The section table is read exactly when it fits. -/
theorem readSections_eq_ok_iff {sections : List Section} :
    Image.readSections data ident (headerIn data ident) = .ok sections ↔
      TableFits data ident.fileClass ident.order
        ∧ sections = sectionsIn data ident.fileClass ident.order := by
  have hoffset : (headerIn data ident).sectionHeadersOffset
      = tableStart data ident.fileClass ident.order := rfl
  have hstride : (headerIn data ident).sectionHeaderSize
      = stride data ident.fileClass ident.order := rfl
  rw [Image.readSections_eq, hoffset, hstride, sectionCodec_size, readHeader_eq, sectionPlace_zero]
  unfold TableFits sectionsIn
  by_cases hstart : tableStart data ident.fileClass ident.order = 0
  · rw [if_pos (by rw [hstart]; rfl), if_pos hstart, Except.ok.injEq]
    simp [hstart, eq_comm]
  rw [if_neg (by omega), if_neg hstart, or_iff_right hstart]
  constructor
  · intro h
    -- the first header is read before the count is known, and whatever the count is
    obtain ⟨hsize, h⟩ := ite_error_eq_ok_iff.mp h
    have hstride := Int.ofNat_inj.mp (Decidable.not_not.mp hsize)
    obtain ⟨first, hread, h⟩ := bind_eq_ok_iff.mp h
    by_cases hfirst : tableStart data ident.fileClass ident.order + ident.fileClass.sectionSize
        ≤ data.size
    · rw [if_pos hfirst] at hread
      cases hread
      obtain ⟨hheaders, hsections⟩ := (readBehind_eq_ok_iff hstride).mp h
      exact ⟨⟨hstride, hfirst, hheaders⟩, hsections⟩
    · rw [if_neg hfirst] at hread
      cases hread
  · rintro ⟨h, hsections⟩
    have hsize : ¬ (stride data ident.fileClass ident.order : Int) ≠ ident.fileClass.sectionSize :=
      Decidable.not_not.mpr (Int.ofNat_inj.mpr h.stride)
    refine ite_error_eq_ok_iff.mpr ⟨hsize, ?_⟩
    refine bind_eq_ok_iff.mpr ⟨_, if_pos h.first, ?_⟩
    exact (readBehind_eq_ok_iff h.stride).mpr ⟨h.headers, hsections⟩

end Table

/-! ## Files -/

/-- A file is an ELF file of a class and a byte order. -/
structure HasSections (data : Bytes) (fileClass : FileClass) (order : ByteOrder) : Prop where
  ident : Identifies data fileClass order
  header : fileClass.headerSize ≤ data.size
  table : TableFits data fileClass order

/-- A file is read exactly when it has the parts of an ELF file, and as these parts. -/
theorem ofBytes_eq_ok_iff {data : Bytes} {img : Image} :
    Image.ofBytes data = .ok img ↔
      HasSections data img.ident.fileClass img.ident.order
        ∧ ((data.getD 7 0).toNat : Int) = img.ident.osAbi
        ∧ img = ⟨data, img.ident, headerIn data img.ident,
            sectionsIn data img.ident.fileClass img.ident.order⟩ := by
  constructor
  · intro h
    obtain ⟨ident, hident, h⟩ := bind_eq_ok_iff.mp h
    obtain ⟨header, hheader, h⟩ := bind_eq_ok_iff.mp h
    obtain ⟨sections, hsections, h⟩ := bind_eq_ok_iff.mp h
    cases h
    obtain ⟨hidentifies, hosAbi⟩ := decode_ident_eq_ok_iff.mp (mapError_eq_ok_iff.mp hident)
    -- the header of the image is the one that the file starts with
    obtain ⟨rfl, hlong⟩ := header_of_decode (mapError_eq_ok_iff.mp hheader)
    obtain ⟨htable, rfl⟩ := readSections_eq_ok_iff.mp hsections
    exact ⟨⟨hidentifies, hlong, htable⟩, hosAbi, rfl⟩
  · rintro ⟨h, hosAbi, himage⟩
    have hident := decode_ident_eq_ok_iff.mpr ⟨h.ident, hosAbi⟩
    have hheader : Header.decode img.ident data = .ok (headerIn data img.ident) := by
      rw [decode_header_eq, if_pos h.header]
    have hsections := readSections_eq_ok_iff.mpr ⟨h.table, rfl⟩
    refine bind_eq_ok_iff.mpr ⟨_, mapError_eq_ok_iff.mpr hident, ?_⟩
    refine bind_eq_ok_iff.mpr ⟨_, mapError_eq_ok_iff.mpr hheader, ?_⟩
    refine bind_eq_ok_iff.mpr ⟨_, hsections, ?_⟩
    exact congrArg Except.ok himage.symm

theorem data_of_ofBytes {data : Bytes} {img : Image} (h : Image.ofBytes data = .ok img) :
    img.data = data := by
  rw [(ofBytes_eq_ok_iff.mp h).2.2]

/-- A file is read exactly when its identification bytes are those of a class and a byte order, the
file header of the class fits, and so does the section table; any other file is refused. The image
then has the sections of the table, in table order, each with its number, the header at its place,
and its name from the section of the names. -/
theorem sections_read_exactly_when_table_fits (data : Bytes) :
    (∀ fileClass order, HasSections data fileClass order →
      ∃ img, Image.ofBytes data = .ok img ∧ img.ident.fileClass = fileClass
        ∧ img.ident.order = order
        ∧ (tableStart data fileClass order = 0 → img.sections = [])
        ∧ (tableStart data fileClass order ≠ 0 →
          img.sections.length = sectionTotal data fileClass order
          ∧ ∀ i < sectionTotal data fileClass order, img.sections[i]? =
            some ⟨i, nameAt data fileClass order i,
              sectionAt data fileClass order (sectionPlace data fileClass order i)⟩))
    ∧ ((∀ fileClass order, ¬ HasSections data fileClass order) →
      ∃ e, Image.ofBytes data = .error e ∧ e.misread? = none) := by
  constructor
  · intro fileClass order h
    -- the image that the parts make up is the one that is read
    let ident : Ident := ⟨fileClass, order, (data.getD 7 0).toNat⟩
    let img : Image := ⟨data, ident, headerIn data ident, sectionsIn data fileClass order⟩
    have hread : Image.ofBytes data = .ok img := ofBytes_eq_ok_iff.mpr ⟨h, rfl, rfl⟩
    refine ⟨img, hread, rfl, rfl, fun hzero => if_pos hzero, fun htable => ?_⟩
    have hsections : img.sections
        = (List.range (sectionTotal data fileClass order)).map (sectionIn data fileClass order) :=
      if_neg htable
    rw [hsections, List.length_map, List.length_range]
    refine ⟨rfl, ?_⟩
    intro i hi
    rw [List.getElem?_map, List.getElem?_range hi]
    rfl
  · intro hnone
    cases hread : Image.ofBytes data with
    | error e => exact ⟨e, rfl, Image.misread?_of_ofBytes hread⟩
    | ok img => exact absurd (ofBytes_eq_ok_iff.mp hread).1 (hnone _ _)

end Provenance.Elf
