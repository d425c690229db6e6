import Provenance.Proofs.Elf.Reader
import Provenance.Proofs.Strings

/-!
# Contents of an ELF file

What it means that a file has been written with given contents, told from the bytes of each record.
The records may stand anywhere, and anything may stand between them: only the header has a place of
its own, and each other part is where a header says that it is.

* `Contents` — a header, section headers, symbols and dynamic entries, for a class and a byte order.
* `Contents.HeldBy` — a file holds the bytes of each of them in its place.
* `Contents.HeldBy.ofBytes_eq` — such a file is read, with its sections.
-/

namespace Provenance.Elf

/-- What is written into a file. -/
structure Contents where
  /-- The width of addresses. -/
  fileClass : FileClass
  /-- The byte order. -/
  order : ByteOrder
  /-- The header. -/
  header : Header
  /-- The section headers, in table order. -/
  headers : List SectionHeader
  /-- The symbols, with the empty one that the table starts with. -/
  symbols : List Symbol
  /-- The dynamic entries, with those behind the end of the table. -/
  entries : List DynamicEntry

namespace Contents

/-- What the identification bytes say. -/
def ident (c : Contents) : Ident :=
  ⟨c.fileClass, c.order, (c.header.ident.getD 7 0).toNat⟩

/-- The header has valid identification bytes of the class and the byte order. -/
structure Identified (c : Contents) : Prop where
  size : c.header.ident.length = 16
  mark : c.header.ident.take 4 = [0x7F, 0x45, 0x4C, 0x46]
  fileClass : ((c.header.ident.getD 4 0).toNat : Int) = c.fileClass.code
  encoding : ((c.header.ident.getD 5 0).toNat : Int) = encodingCode c.order
  version : c.header.ident.getD 6 0 = 1

/-- Whether identification bytes are valid can be computed. -/
instance (c : Contents) : Decidable c.Identified :=
  decidable_of_iff (_ ∧ _ ∧ _ ∧ _ ∧ _)
    ⟨fun ⟨hsize, hmark, hclass, hencoding, hversion⟩ =>
        ⟨hsize, hmark, hclass, hencoding, hversion⟩,
      fun h => ⟨h.size, h.mark, h.fileClass, h.encoding, h.version⟩⟩

/-- A file holds records as the content of the first section of a type, if there is one, and that
section is linked to a string table in the file. -/
def HoldsTable {α : Type} (c : Contents) (data : Bytes) (type : Int) (codec : Codec α)
    (records : List α) : Prop :=
  match c.headers.find? (·.type = type) with
  | none => records = []
  | some h =>
    (∃ bs ∈ codec.writeAll? records, h.size = bs.length ∧ data.HoldsAt h.offset.toNat bs)
      ∧ ∃ strings ∈ c.headers[h.link.toNat]?,
          strings.type = stringTableType ∧ strings.endOffset ≤ data.size

/-- Whether a table is held can be computed. -/
instance {α : Type} (c : Contents) (data : Bytes) (type : Int) (codec : Codec α)
    (records : List α) [DecidableEq α] : Decidable (c.HoldsTable data type codec records) := by
  unfold HoldsTable
  split <;> infer_instance

/-- A file holds the bytes of each part of its contents. -/
structure HeldBy (c : Contents) (data : Bytes) : Prop where
  identified : c.Identified
  header : (Header.codec c.ident).HeldAt data 0 c.header
  sectionHeadersOffset : c.header.sectionHeadersOffset ≠ 0
  sectionHeaderSize : c.header.sectionHeaderSize = (SectionHeader.codec c.ident).size
  sectionHeaderCount : c.header.sectionHeaderCount = c.headers.length
  nonempty : c.headers ≠ []
  nameTable : c.header.nameTableIndex = 0 ∨
    ∃ names ∈ c.headers[c.header.nameTableIndex.toNat]?, names.type = stringTableType
  headers : ∀ i (hi : i < c.headers.length),
    (SectionHeader.codec c.ident).HeldAt data
      (c.header.sectionHeadersOffset + i * c.header.sectionHeaderSize).toNat c.headers[i]
  symbols : c.HoldsTable data symbolTableType (Symbol.codec c.ident) c.symbols
  entries : c.HoldsTable data dynamicType (DynamicEntry.codec c.ident) c.entries

/-- Whether a file holds contents can be computed. -/
instance (c : Contents) (data : Bytes) : Decidable (c.HeldBy data) :=
  decidable_of_iff (_ ∧ _ ∧ _ ∧ _ ∧ _ ∧ _ ∧ _ ∧ _ ∧ _ ∧ _)
    ⟨fun ⟨hident, hheader, hoffset, hsize, hcount, hsome, hnames, hheaders, hsymbols, hentries⟩ =>
        ⟨hident, hheader, hoffset, hsize, hcount, hsome, hnames, hheaders, hsymbols, hentries⟩,
      fun h => ⟨h.identified, h.header, h.sectionHeadersOffset, h.sectionHeaderSize,
        h.sectionHeaderCount, h.nonempty, h.nameTable, h.headers, h.symbols, h.entries⟩⟩

/-!
## Identification and header

The header is read at the start of the file with the class and byte order that the identification
tells.
-/

section Header

variable {c : Contents} {data : Bytes}

/-- The bytes of a header start with the identification bytes. -/
theorem holdsAt_ident (hident : c.Identified)
    (h : (Header.codec c.ident).HeldAt data 0 c.header) : data.HoldsAt 0 c.header.ident := by
  obtain ⟨bs, hwrite, hheld⟩ := h
  obtain ⟨more, rfl⟩ := Layout.exists_of_encode?_bytes hwrite
  -- the header is a row that starts with these bytes
  have hfront : data.HoldsAt 0 (fitTo identSize c.header.ident) := hheld.take
  rwa [fitTo_eq_self (show _ = identSize from hident.size)] at hfront

/-- Valid identification bytes are decoded to the class and the byte order that they were made for.
-/
theorem decode_ident (hident : c.Identified) (h : data.HoldsAt 0 c.header.ident) :
    Ident.decode data = .ok c.ident := by
  -- the mark stands in front of the codes
  have hsize := h.1
  rw [hident.size] at hsize
  have hmark : data.HoldsAt 0 Ident.mark := by
    have hsplit := List.take_append_drop 4 c.header.ident
    rw [hident.mark] at hsplit
    rw [← hsplit] at h
    exact h.take
  -- the codes are the bytes 4 to 7 behind the mark
  have hbyte : ∀ i < 16, data.getD i 0 = c.header.ident.getD i 0 := by
    intro i hi
    have hget := h.getElem? (i := i) (by rw [hident.size]; exact hi)
    rw [Nat.zero_add] at hget
    rw [Array.getD_eq_getD_getElem?, List.getD_eq_getElem?_getD, hget]
  have hcodes : IdentCodes.ofBytes data = c.ident.codes := by
    unfold IdentCodes.ofBytes Ident.codes ident
    simp only [hbyte 4 (by decide), hbyte 5 (by decide), hbyte 6 (by decide),
      hbyte 7 (by decide), hident.fileClass, hident.encoding, hident.version]
    rfl
  have hstarts : data.startsWith Ident.mark = true := by
    have hbytes := hmark.2
    rw [Nat.zero_add] at hbytes
    rw [Bytes.startsWith, hbytes]
    exact beq_self_eq_true _
  have hlong : ¬ data.size < identSize := by
    unfold identSize
    omega
  rw [Ident.decode, if_neg hlong, if_neg (by rw [hstarts]; exact fun hnot => hnot rfl), hcodes,
    Ident.ofCodes_codes]

/-- A header that a file holds is decoded as that header. -/
theorem decode_header (hident : c.Identified)
    (h : (Header.codec c.ident).HeldAt data 0 c.header) :
    Header.decode c.ident data = .ok c.header := by
  have hexact : (Header.codec c.ident).Exact c.header := ⟨hident.size, trivial⟩
  exact Codec.readOr_of_heldAt hexact h _ _

end Header

/-! ## Sections -/

section Sections

variable {c : Contents} {data : Bytes}

/-- The header of the section that holds the names, if there is one. -/
def names? (c : Contents) : Option SectionHeader :=
  if c.header.nameTableIndex = 0 then none else c.headers[c.header.nameTableIndex.toNat]?

/-- The numbers of a header that a file holds are those of its words. -/
theorem HeldBy.bounds (h : c.HeldBy data) :
    0 ≤ c.header.sectionHeadersOffset ∧ c.header.sectionHeaderCount < 0x10000
      ∧ 0 ≤ c.header.nameTableIndex := by
  obtain ⟨-, -, -, -, -, hoffset, -, -, -, -, -, hcount, hname, -⟩ := h.header.fits
  exact ⟨Word.nonneg_of_fits c.fileClass.address_unsigned hoffset, Word.lt_of_fits rfl hcount,
    Word.nonneg_of_fits rfl hname⟩

/-- A section header that a file holds is read from its place in the table. -/
theorem HeldBy.readHeader (h : c.HeldBy data) {i : Nat} (hi : i < c.headers.length) :
    Image.readHeader data c.ident c.header i = .ok c.headers[i] := by
  obtain ⟨hoffset, -, -⟩ := h.bounds
  -- the offset is that of a place of the file, since none of its parts is negative
  have hplace : c.header.sectionHeadersOffset + i * c.header.sectionHeaderSize
      = (c.header.sectionHeadersOffset + i * c.header.sectionHeaderSize).toNat := by
    have hsize := h.sectionHeaderSize
    rw [Int.toNat_of_nonneg]
    rw [hsize]
    have hmul : (0 : Int) ≤ i * (SectionHeader.codec c.ident).size :=
      Int.mul_nonneg (Int.natCast_nonneg _) (Int.natCast_nonneg _)
    omega
  have hexact : (SectionHeader.codec c.ident).Exact c.headers[i] := trivial
  have hread := Codec.readOr_of_heldAt hexact (h.headers i hi)
    (RecordError.tooShort .sectionHeader) RecordError.outside
  rw [← hplace] at hread
  simp only [Image.readHeader, SectionHeader.decode, read, hread]
  rfl

/-- The section headers are read, and the sections are named from the table of names. -/
theorem HeldBy.readSections (h : c.HeldBy data) :
    Image.readSections data c.ident c.header
      = .ok (Image.nameSections data c.names? c.headers) := by
  obtain ⟨hoffset, hbound, hname⟩ := h.bounds
  have hpos : 0 < c.headers.length := List.length_pos_iff.mpr h.nonempty
  have hcount := h.sectionHeaderCount
  -- the number of the table of names is that of a section, be it zero for none
  have hindex : c.header.nameTableIndex < c.headers.length := by
    rcases h.nameTable with hzero | ⟨names, hnames, -⟩
    · omega
    · have hlt := (List.getElem?_eq_some_iff.mp hnames).1
      omega
  have hheaders : (List.range (c.headers.length : Int).toNat).mapM
      (Image.readHeader data c.ident c.header) = .ok c.headers := by
    -- the headers are as many as the places, and each of them stands at its own place
    rw [Int.toNat_natCast, mapM_eq_ok_iff]
    apply List.ext_getElem?
    intro i
    by_cases hi : i < c.headers.length
    · simp [hi, h.readHeader hi]
    · simp [hi]
  -- neither number is one that the first section header would have to tell
  have hcountIs : Image.sectionCount c.header c.headers[0] = c.headers.length := by
    rw [Image.sectionCount, if_neg (by omega), hcount]
  have hindexIs : Image.nameIndex c.header c.headers[0] = c.header.nameTableIndex := by
    rw [Image.nameIndex, if_neg (by unfold extendedIndex; omega)]
  have hnames : Image.nameTable? c.header c.headers[0] c.headers = c.names? := by
    rw [Image.nameTable?, hindexIs, names?]
  -- the section of the names is a string table, as the reader asks for
  have htype : c.names?.any (·.type ≠ stringTableType) = false := by
    unfold names?
    split
    next => rfl
    next hzero =>
      obtain ⟨names, hnames, htype⟩ := h.nameTable.resolve_left hzero
      rw [Option.mem_def.mp hnames]
      simp [htype]
  -- every check of the reader goes the good way
  rw [Image.readSections_eq, if_neg h.sectionHeadersOffset,
    if_neg (fun hne => hne h.sectionHeaderSize), h.readHeader hpos]
  simp only [Except.bind, hcountIs, hindexIs]
  rw [if_neg (by omega), if_neg (by unfold maxSections; omega), if_neg (by omega), hheaders]
  simp only [hnames, htype]
  rfl

/-- The file with its header and its named sections. -/
def image (c : Contents) (data : Bytes) : Image :=
  ⟨data, c.ident, c.header, Image.nameSections data c.names? c.headers⟩

/-- A file that holds contents is read. -/
theorem HeldBy.ofBytes_eq (h : c.HeldBy data) : Image.ofBytes data = .ok (c.image data) := by
  -- identification, header and sections, in the order in which they are read
  have hident := decode_ident h.identified (holdsAt_ident h.identified h.header)
  have hheader := decode_header h.identified h.header
  simp only [Image.ofBytes, hident, hheader, h.readSections, bind, Except.bind, mapError_ok,
    pure, Except.pure]
  rfl

/-- No section header is lost, and each has its place. -/
theorem image_headers (c : Contents) (data : Bytes) :
    (c.image data).sections.map (·.header) = c.headers := by
  simp only [image, Image.nameSections, List.map_map]
  exact List.zipIdx_map_fst 0 c.headers

end Sections

/-! ## Tables -/

section Tables

variable {c : Contents} {data : Bytes}

/-- The bytes of the section with a given header that are in the file. -/
def stringsOf (data : Bytes) (h : SectionHeader) : Bytes :=
  data.extract h.offset.toNat (h.offset.toNat + h.size.toNat)

theorem sectionOfType?_header (c : Contents) (data : Bytes) (type : Int) :
    ((c.image data).sectionOfType? type).map (·.header) = c.headers.find? (·.type = type) := by
  rw [← image_headers c data, List.find?_map]
  rfl

theorem section?_header (c : Contents) (data : Bytes) {link : Int} (h : 0 ≤ link) :
    ((c.image data).section? link).map (·.header) = c.headers[link.toNat]? := by
  rw [Image.section?, if_neg (by omega), ← image_headers c data, List.getElem?_map]

/-- The words of a section header that a file holds are natural numbers. -/
theorem HeldBy.nonneg (h : c.HeldBy data) {header : SectionHeader} (hmem : header ∈ c.headers) :
    0 ≤ header.name ∧ 0 ≤ header.offset ∧ 0 ≤ header.size ∧ 0 ≤ header.link := by
  obtain ⟨i, hi, rfl⟩ := List.mem_iff_getElem.mp hmem
  obtain ⟨hname, -, -, -, hoffset, hsize, hlink, -⟩ := (h.headers i hi).fits
  have haddress := c.fileClass.address_unsigned
  exact ⟨Word.nonneg_of_fits rfl hname, Word.nonneg_of_fits haddress hoffset,
    Word.nonneg_of_fits haddress hsize, Word.nonneg_of_fits rfl hlink⟩

/-- A section that is in the file as a whole has its bytes as content. -/
theorem HeldBy.content_eq (h : c.HeldBy data) {s : Section} (hmem : s.header ∈ c.headers)
    (htype : s.header.type ≠ noBitsType) (hend : s.header.endOffset ≤ data.size) :
    (c.image data).content s = .ok (stringsOf data s.header) := by
  obtain ⟨-, hoffset, hsize, -⟩ := h.nonneg hmem
  exact (Image.content_eq_ok_iff htype hoffset hsize).mpr ⟨hend, rfl⟩

end Tables

end Contents

end Provenance.Elf
