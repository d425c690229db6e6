import Provenance.Elf.Evidence
import Provenance.Proofs.Failures
import Provenance.Proofs.Reading

/-!
# The ELF reader

What the reader of ELF files does, as equations that the other modules start from, and the ways in
which it gives up. The reader looks at one header after the other and checks what it is going to use
before it goes there. So whatever is wrong with a file, the reader says so itself, and no failed
read is left to the caller.

* `Image.readSections_eq` — the checks on the section table, in their order.
* `Image.misread?_of_ofBytes` — a file is refused for a reason of the reader's own: no read goes to
  a place that cannot be named.
* `Image.noRecord_of_symbols`, `Image.noRecord_of_importedLibraries` — a table is refused as a
  whole, and never for one of its entries: they all lie in the content of the table.
-/

namespace Provenance.Elf

theorem FileClass.address_unsigned (fileClass : FileClass) : fileClass.address.signed = false := by
  cases fileClass <;> rfl

/-- At a place of the data a record is read exactly when it ends within them. -/
theorem read_natCast {α : Type} (c : Codec α) (kind : RecordKind) (data : Bytes) (place : Nat) :
    read c kind data place =
      if place + c.size ≤ data.size then .ok (c.recordAt data place)
      else .error (.tooShort kind) :=
  c.readOr_eq data place _ _

theorem misread?_of_read {α : Type} {c : Codec α} {kind : RecordKind} {data : Bytes} {start : Nat}
    {e : RecordError} (h : read c kind data start = .error e) : e.misread? = none := by
  rw [Codec.error_of_readOr h]
  rfl

/-- A failure is not put down to a record that cannot be read. -/
def ImageError.NoRecord (e : ImageError) : Prop := ∀ r, e ≠ .record r

theorem ImageError.NoRecord.misread? {e : ImageError} (h : e.NoRecord) : e.misread? = none := by
  cases e with
  | record r => exact absurd rfl (h r)
  | _ => rfl

/-! ## Header -/

/-- The identification bytes are refused by one check after the other. -/
theorem misread?_of_ident {data : Bytes} {e : RecordError} (h : Ident.decode data = .error e) :
    e.misread? = none := by
  unfold Ident.decode Ident.ofCodes at h
  rcases ite_error_eq_error h with rfl | h
  · rfl
  rcases ite_error_eq_error h with rfl | h
  · rfl
  -- the class, the byte order, and the version last
  split at h
  next =>
    cases h
    rfl
  next =>
    cases h
    rfl
  next =>
    cases ite_ok_eq_error h
    rfl

/-- The header is read at the start of the data, and refused for its size. -/
theorem misread?_of_header {ident : Ident} {data : Bytes} {e : RecordError}
    (h : Header.decode ident data = .error e) : e.misread? = none := by
  have hread : (Header.codec ident).readOr data (0 : Nat)
      (.headerTooShort data.size (Header.codec ident).size) .outside = .error e := h
  rw [Codec.error_of_readOr hread]
  rfl

/-- The offset of a section header is a place of the file. -/
theorem misread?_of_sectionHeader {ident : Ident} {data : Bytes} {header : Header}
    (hheader : Header.decode ident data = .ok header) {i : Nat} {e : RecordError}
    (h : SectionHeader.decode ident data
      (header.sectionHeadersOffset + i * header.sectionHeaderSize) = .error e) :
    e.misread? = none := by
  -- offset and size were read as unsigned words
  obtain ⟨-, -, -, -, -, hoffset, -, -, -, -, hsize, -⟩ := Codec.fits_of_readOr hheader
  obtain ⟨offset, hoffset⟩ :=
    Int.eq_ofNat_of_zero_le (Word.nonneg_of_fits ident.fileClass.address_unsigned hoffset)
  obtain ⟨size, hsize⟩ := Int.eq_ofNat_of_zero_le (Word.nonneg_of_fits rfl hsize)
  have hplace : header.sectionHeadersOffset + i * header.sectionHeaderSize
      = (offset + i * size : Nat) := by
    rw [show header.sectionHeadersOffset = offset from hoffset,
      show header.sectionHeaderSize = size from hsize]
    push_cast
    rfl
  rw [hplace] at h
  exact misread?_of_read h

/-! ## Sections -/

namespace Image

variable {data : Bytes} {img : Image}

/-- How many sections a file has. The first section header tells a number that the header has no
room for. -/
def sectionCount (header : Header) (first : SectionHeader) : Int :=
  if header.sectionHeaderCount = 0 then first.size else header.sectionHeaderCount

/-- The number of the section that holds the names, which the first section header may tell. -/
def nameIndex (header : Header) (first : SectionHeader) : Int :=
  if header.nameTableIndex = extendedIndex then first.link else header.nameTableIndex

/-- The header of the section that holds the names; the number zero stands for none. -/
def nameTable? (header : Header) (first : SectionHeader) (headers : List SectionHeader) :
    Option SectionHeader :=
  if nameIndex header first = 0 then none else headers[(nameIndex header first).toNat]?

/-- The checks on the section table, one after the other. -/
theorem readSections_eq (data : Bytes) (ident : Ident) (header : Header) :
    readSections data ident header =
      if header.sectionHeadersOffset = 0 then .ok []
      else if header.sectionHeaderSize ≠ (SectionHeader.codec ident).size then
        .error (.entrySize header.sectionHeaderSize)
      else
        (readHeader data ident header 0).bind fun first =>
          if sectionCount header first = 0 then .ok []
          else if maxSections < sectionCount header first then
            .error (.tooManySections (sectionCount header first))
          else if sectionCount header first ≤ nameIndex header first then
            .error (.nameTableIndex (nameIndex header first))
          else
            ((List.range (sectionCount header first).toNat).mapM
                (readHeader data ident header)).bind fun headers =>
              if (nameTable? header first headers).any (·.type ≠ stringTableType) then
                .error (.nameTableType (nameIndex header first))
              else .ok (nameSections data (nameTable? header first headers) headers) := by
  -- both sides make the same checks, the right one with names for what is looked at
  unfold readSections
  by_cases hnone : header.sectionHeadersOffset = 0
  · rw [if_pos hnone, if_pos hnone]
    rfl
  rw [if_neg hnone, if_neg hnone]
  by_cases hsize : header.sectionHeaderSize ≠ (SectionHeader.codec ident).size
  · rw [if_pos hsize, if_pos hsize]
    rfl
  rw [if_neg hsize, if_neg hsize]
  refine congrArg ((readHeader data ident header 0).bind ·) (funext fun first => ?_)
  have hcount : (if header.sectionHeaderCount = 0 then first.size
      else header.sectionHeaderCount) = sectionCount header first := rfl
  have hname : (if header.nameTableIndex = extendedIndex then first.link
      else header.nameTableIndex) = nameIndex header first := rfl
  simp only [hcount, hname]
  by_cases hempty : sectionCount header first = 0
  · rw [if_pos hempty, if_pos hempty]
    rfl
  rw [if_neg hempty, if_neg hempty]
  by_cases hmany : maxSections < sectionCount header first
  · rw [if_pos hmany, if_pos hmany]
    rfl
  rw [if_neg hmany, if_neg hmany]
  by_cases hindex : sectionCount header first ≤ nameIndex header first
  · rw [if_pos hindex, if_pos hindex]
    rfl
  rw [if_neg hindex, if_neg hindex]
  refine congrArg (((List.range (sectionCount header first).toNat).mapM
    (readHeader data ident header)).bind ·) (funext fun headers => ?_)
  rw [← nameTable?]
  split <;> rfl

theorem misread?_of_readHeader {ident : Ident} {header : Header} {i : Nat} {e : ImageError}
    (h : readHeader data ident header i = .error e) : e.misread? = none := by
  obtain ⟨e', -, rfl⟩ := mapError_eq_error_iff.mp h
  rfl

/-- The section table is refused by one of its checks, or because a section header is cut off. -/
theorem misread?_of_readSections {ident : Ident} {header : Header} {e : ImageError}
    (h : readSections data ident header = .error e) : e.misread? = none := by
  rw [readSections_eq] at h
  -- the checks in the order of the reader, the first section header among them
  rcases ite_error_eq_error (ite_ok_eq_error h) with rfl | h
  · rfl
  rcases bind_eq_error_iff.mp h with hfirst | ⟨first, -, h⟩
  · exact misread?_of_readHeader hfirst
  rcases ite_error_eq_error (ite_ok_eq_error h) with rfl | h
  · rfl
  rcases ite_error_eq_error h with rfl | h
  · rfl
  rcases bind_eq_error_iff.mp h with hall | ⟨headers, -, h⟩
  -- one of the headers could not be read
  · obtain ⟨i, -, hheader⟩ := exists_mem_of_mapM_eq_error hall
    exact misread?_of_readHeader hheader
  rcases ite_error_eq_error h with rfl | h
  · rfl
  · cases h

/-- A file that is no ELF file is refused for a reason of its own. -/
theorem misread?_of_ofBytes {e : ImageError} (h : Image.ofBytes data = .error e) :
    e.misread? = none := by
  -- identification, header, sections
  unfold Image.ofBytes at h
  rcases bind_eq_error_iff.mp h with hident | ⟨ident, -, h⟩
  · obtain ⟨e', hrecord, rfl⟩ := mapError_eq_error_iff.mp hident
    exact misread?_of_ident hrecord
  rcases bind_eq_error_iff.mp h with hheader | ⟨header, -, h⟩
  · obtain ⟨e', hrecord, rfl⟩ := mapError_eq_error_iff.mp hheader
    exact misread?_of_header hrecord
  rcases bind_eq_error_iff.mp h with hsections | ⟨sections, -, h⟩
  · exact misread?_of_readSections hsections
  · cases h

/-! ## Tables -/

/-- A section that takes room in the file has its bytes as content exactly when all of them are
there. -/
theorem content_eq_ok_iff {s : Section} {bs : Bytes} (htype : s.header.type ≠ noBitsType)
    (hoffset : 0 ≤ s.header.offset) (hsize : 0 ≤ s.header.size) :
    img.content s = .ok bs ↔
      s.header.endOffset ≤ img.data.size
        ∧ bs = img.data.extract s.header.offset.toNat
            (s.header.offset.toNat + s.header.size.toNat) := by
  have hbits : ¬ s.header.isNoBits = true := by
    rw [SectionHeader.isNoBits, beq_iff_eq]
    exact htype
  have hslice : img.data.slice s.header.offset s.header.endOffset
      = img.data.extract s.header.offset.toNat (s.header.offset.toNat + s.header.size.toNat) := by
    -- neither bound is negative, so that the bytes are those between two places
    have hstart : s.header.offset = (s.header.offset.toNat : Int) :=
      (Int.toNat_of_nonneg hoffset).symm
    have hstop : s.header.endOffset
        = ((s.header.offset.toNat + s.header.size.toNat : Nat) : Int) := by
      unfold SectionHeader.endOffset
      omega
    rw [hstop, ← Bytes.slice_natCast, ← hstart]
  rw [content, if_neg hbits, ite_error_eq_ok_iff, Int.not_lt, hslice, Except.ok.injEq,
    eq_comm (a := bs)]

/-- The content of a section is refused as a whole, for the place where it ends. -/
theorem noRecord_of_content {s : Section} {e : ImageError} (h : img.content s = .error e) :
    e.NoRecord := by
  unfold content at h
  rcases ite_error_eq_error (ite_ok_eq_error h) with rfl | h
  · rintro r ⟨⟩
  · cases h

/-- A string table is refused for its link, its type, or its content. -/
theorem noRecord_of_linkedStrings {s : Section} {e : ImageError}
    (h : img.linkedStrings s = .error e) : e.NoRecord := by
  unfold linkedStrings at h
  split at h
  next =>
    cases h
    rintro r ⟨⟩
  next =>
    split at h
    next => exact noRecord_of_content h
    next =>
      cases h
      rintro r ⟨⟩

/-- An entry ends where the next one starts, and the last one within the table. -/
theorem entry_end_le {i size total : Nat} (hi : i < total / size) : i * size + size ≤ total := by
  have hmul : (i + 1) * size ≤ total / size * size := Nat.mul_le_mul_right size hi
  rw [← Nat.succ_mul]
  exact Nat.le_trans hmul (Nat.div_mul_le_self ..)

/-- The entries of a table lie in its content, so that each of them is read. -/
theorem exists_readEntries {α : Type} {first size : Nat} {content : Bytes}
    {read : Int → Except RecordError α}
    (hread : ∀ place : Nat, place + size ≤ content.size → ∃ a, read place = .ok a) :
    ∃ entries, readEntries first size content read = .ok entries := by
  -- a refusal would come from one of the entries, and each of them has room in the content
  cases h : readEntries first size content read with
  | ok entries => exact ⟨entries, rfl⟩
  | error e =>
    obtain ⟨i, hi, hentry⟩ := exists_mem_of_mapM_eq_error h
    obtain ⟨e', hfail, -⟩ := mapError_eq_error_iff.mp hentry
    have hlast : i < content.size / size := by
      have hrange := List.mem_range'_1.mp hi
      omega
    obtain ⟨a, ha⟩ := hread (i * size) (entry_end_le hlast)
    have hplace : ((i * size : Nat) : Int) = i * size := Int.natCast_mul i size
    rw [hplace, hfail] at ha
    cases ha

/-- A symbol table is refused for its strings or its content, never for a symbol in it. -/
theorem noRecord_of_symbols {e : ImageError} (h : img.symbols = .error e) : e.NoRecord := by
  unfold symbols at h
  split at h
  next => cases h
  next table =>
    rcases bind_eq_error_iff.mp h with hstrings | ⟨strings, -, h⟩
    · exact noRecord_of_linkedStrings hstrings
    rcases bind_eq_error_iff.mp h with hcontent | ⟨content, -, h⟩
    · exact noRecord_of_content hcontent
    -- with its content at hand, no entry of the table is missing
    have hread : ∀ place : Nat, place + (Symbol.codec img.ident).size ≤ content.size →
        ∃ symbol, (Symbol.decode img.ident content place).map
          (fun s => (strings.cString s.name none, s)) = .ok symbol := by
      intro place hplace
      have hsymbol : Symbol.decode img.ident content place = _ := read_natCast _ _ content place
      rw [hsymbol, if_pos hplace]
      exact ⟨_, rfl⟩
    have hentries : ∃ entries, readEntries 1 (Symbol.codec img.ident).size content (fun offset =>
        (Symbol.decode img.ident content offset).map
          fun s => (strings.cString s.name none, s)) = .ok entries :=
      exists_readEntries hread
    obtain ⟨entries, hentries⟩ := hentries
    cases hentries.symm.trans h

/-- Dynamic entries are refused for the content of their table, never for an entry in it. -/
theorem noRecord_of_dynamicEntries {e : ImageError} (h : img.dynamicEntries = .error e) :
    e.NoRecord := by
  unfold dynamicEntries at h
  split at h
  next => cases h
  next table =>
    rcases bind_eq_error_iff.mp h with hcontent | ⟨content, -, h⟩
    · exact noRecord_of_content hcontent
    -- the entries end within the content, and are all read
    have hread : ∀ place : Nat, place + (DynamicEntry.codec img.ident).size ≤ content.size →
        ∃ entry, DynamicEntry.decode img.ident content place = .ok entry := by
      intro place hplace
      have hentry : DynamicEntry.decode img.ident content place = _ :=
        read_natCast _ _ content place
      rw [hentry, if_pos hplace]
      exact ⟨_, rfl⟩
    have hentries : ∃ entries, readEntries 0 (DynamicEntry.codec img.ident).size content
        (DynamicEntry.decode img.ident content) = .ok entries := exists_readEntries hread
    obtain ⟨entries, hentries⟩ := hentries
    rcases bind_eq_error_iff.mp h with hfail | ⟨entries, -, h⟩
    · cases hentries.symm.trans hfail
    · cases h

/-- Libraries are refused for the strings or for the table that they are in. -/
theorem noRecord_of_importedLibraries {e : ImageError} (h : img.importedLibraries = .error e) :
    e.NoRecord := by
  unfold importedLibraries at h
  split at h
  next => cases h
  next table =>
    rcases bind_eq_error_iff.mp h with hstrings | ⟨strings, -, h⟩
    · exact noRecord_of_linkedStrings hstrings
    rcases bind_eq_error_iff.mp h with hentries | ⟨entries, -, h⟩
    · exact noRecord_of_dynamicEntries hentries
    · cases h

end Image

end Provenance.Elf
