import Provenance.Elf.Record
import Provenance.MachO.Record
import Provenance.Pe.Record
import Provenance.Proofs.Reading

/-!
# Records are read back

Every record that can be written is read back from its bytes, wherever they stand in a file, and
writing is refused for the numbers alone: some number is not one that the word of its field can
hold.

The forms of records differ in their fields, in the byte order and in what the reader checks besides
the size. `RecordForm` lists them all, so that one statement covers each. The widths of the fields
are told twice, by the layouts that are read and written and by `RecordForm.numbers`, and both agree
(`RecordForm.mem_numbers_iff`).

Main result:

* `record_read_back` — what is refused, and what is read back.
-/

namespace Provenance

/-! ## Numbers of a layout -/

/-- The numbers of a row, each with the word that holds it. -/
def Layout.numbers : (l : Layout) → l.Row → List (Word × Int)
  | [], _ => []
  | .word w :: rest, row => (w, row.1) :: numbers rest row.2
  | .bytes _ :: rest, row => numbers rest row.2
  | .gap _ :: rest, row => numbers rest row

/-- A row fits its layout exactly when each of its numbers fits its word. -/
theorem Layout.fits_iff_numbers (l : Layout) (row : l.Row) :
    l.Fits row ↔ ∀ n ∈ l.numbers row, n.1.Fits n.2 := by
  induction l with
  | nil => exact iff_of_true trivial nofun
  | cons f rest ih =>
    cases f with
    | word w => rw [Fits, numbers, List.forall_mem_cons, ih row.2]
    -- neither a byte string nor a gap holds a number
    | bytes n => exact ih row.2
    | gap n => exact ih row

namespace Codec

variable {α : Type}

/-- Writing a record fails exactly for a number that does not fit. -/
theorem write?_eq_none_iff (c : Codec α) (a : α) :
    c.write? a = none ↔ ∃ n ∈ c.layout.numbers (c.toRow a), ¬ n.1.Fits n.2 := by
  have hfits := (c.layout.encode?_isSome_iff c.order (c.toRow a)).trans
    (c.layout.fits_iff_numbers (c.toRow a))
  rw [← Option.not_isSome_iff_eq_none]
  show ¬ (c.layout.encode? c.order (c.toRow a)).isSome = true ↔ _
  rw [hfits]
  simp only [Classical.not_forall, exists_prop]

end Codec

/-!
## Forms of records

One statement for all forms of records, each of them told by its layout and by how a record is made
of its numbers.
-/

/-- The forms of records that are both written and read. -/
inductive RecordForm where
  | dosHeader
  | coffHeader
  | dataDirectory
  | optionalHeader (kind : Pe.OptionalKind)
  | peSection
  | importDescriptor
  | elfHeader (ident : Elf.Ident)
  | elfSection (ident : Elf.Ident)
  | elfSymbol (ident : Elf.Ident)
  | dynamicEntry (ident : Elf.Ident)
  | machOHeader (order : ByteOrder)
  | arch

namespace RecordForm

/-- The records of a form. -/
def Record : RecordForm → Type
  | dosHeader => Pe.DosHeader
  | coffHeader => Pe.CoffHeader
  | dataDirectory => Pe.DataDirectory
  | optionalHeader _ => Pe.OptionalHeader
  | peSection => Pe.SectionHeader
  | importDescriptor => Pe.ImportDescriptor
  | elfHeader _ => Elf.Header
  | elfSection _ => Elf.SectionHeader
  | elfSymbol _ => Elf.Symbol
  | dynamicEntry _ => Elf.DynamicEntry
  | machOHeader _ => MachO.Header
  | arch => MachO.Arch

/-- The layout of a form, and the way its records are made of rows. -/
def codec : (form : RecordForm) → Codec form.Record
  | dosHeader => Pe.DosHeader.codec
  | coffHeader => Pe.CoffHeader.codec
  | dataDirectory => Pe.DataDirectory.codec
  | optionalHeader kind => Pe.OptionalHeader.codec kind
  | peSection => Pe.SectionHeader.codec
  | importDescriptor => Pe.ImportDescriptor.codec
  | elfHeader ident => Elf.Header.codec ident
  | elfSection ident => Elf.SectionHeader.codec ident
  | elfSymbol ident => Elf.Symbol.codec ident
  | dynamicEntry ident => Elf.DynamicEntry.codec ident
  | machOHeader order => MachO.Header.codec order
  | arch => MachO.Arch.codec

/-- The bytes of a record, if every number fits. -/
def write? : (form : RecordForm) → form.Record → Option (List UInt8)
  -- with 64-bit addresses a reserved word stands behind the header
  | machOHeader order, h => h.encode? order
  | form, r => form.codec.write? r

/-- A record is read at a place of a file. The headers of ELF and Mach-O files stand at the start,
and are read nowhere else. -/
def Reads : (form : RecordForm) → Bytes → Nat → form.Record → Prop
  | dosHeader, data, start, r => Pe.DosHeader.decode data start = .ok r
  | coffHeader, data, start, r => Pe.CoffHeader.decode data start = .ok r
  | dataDirectory, data, start, r => Pe.DataDirectory.decode data start = .ok r
  | optionalHeader kind, data, start, r => Pe.OptionalHeader.decode kind data start = .ok r
  | peSection, data, start, r => Pe.SectionHeader.decode data start = .ok r
  | importDescriptor, data, start, r => Pe.ImportDescriptor.decode data start = .ok r
  | elfHeader ident, data, start, r => start = 0 ∧ Elf.Header.decode ident data = .ok r
  | elfSection ident, data, start, r => Elf.SectionHeader.decode ident data start = .ok r
  | elfSymbol ident, data, start, r => Elf.Symbol.decode ident data start = .ok r
  | dynamicEntry ident, data, start, r => Elf.DynamicEntry.decode ident data start = .ok r
  | machOHeader order, data, start, r => start = 0 ∧ MachO.Header.decode order data = .ok r
  | arch, data, start, r => MachO.Arch.decode data start = .ok r

/-- A form is read at the start of a file only. -/
def OnlyAtStart : RecordForm → Prop
  | elfHeader _ | machOHeader _ => True
  | _ => False

/-- The numbers of a record, each with the word that holds it. The symbols of the two classes have
the same words, in another order. -/
def numbers : (form : RecordForm) → form.Record → List (Word × Int)
  | dosHeader, (h : Pe.DosHeader) => [(.u16, h.magic), (.u32, h.newHeaderOffset)]
  | coffHeader, (h : Pe.CoffHeader) => [
    (.u16, h.machine), (.u16, h.sectionCount), (.u32, h.timeDateStamp), (.u32, h.symbolTableOffset),
    (.u32, h.symbolCount), (.u16, h.optionalHeaderSize), (.u16, h.characteristics)]
  | dataDirectory, (d : Pe.DataDirectory) => [(.u32, d.virtualAddress), (.u32, d.size)]
  | optionalHeader kind, (h : Pe.OptionalHeader) =>
    let base : Word := match kind with
      | .pe32 => .u32
      | .pe32Plus => .u64
    [(.u16, h.magic), (.u32, h.entryPoint), (base, h.imageBase), (.u32, h.directoryCount)]
  | peSection, (h : Pe.SectionHeader) => [
    (.u32, h.virtualSize), (.u32, h.virtualAddress), (.u32, h.rawSize), (.u32, h.rawOffset),
    (.u32, h.relocationsOffset), (.u32, h.lineNumbersOffset), (.u16, h.relocationCount),
    (.u16, h.lineNumberCount), (.u32, h.characteristics)]
  | importDescriptor, (d : Pe.ImportDescriptor) => [
    (.u32, d.lookupTable), (.u32, d.timeDateStamp), (.u32, d.forwarderChain), (.u32, d.name),
    (.u32, d.addressTable)]
  | elfHeader ident, (h : Elf.Header) =>
    let address := ident.fileClass.address
    [(.u16, h.type), (.u16, h.machine), (.u32, h.version), (address, h.entry),
      (address, h.programHeadersOffset), (address, h.sectionHeadersOffset), (.u32, h.flags),
      (.u16, h.headerSize), (.u16, h.programHeaderSize), (.u16, h.programHeaderCount),
      (.u16, h.sectionHeaderSize), (.u16, h.sectionHeaderCount), (.u16, h.nameTableIndex)]
  | elfSection ident, (h : Elf.SectionHeader) =>
    let address := ident.fileClass.address
    [(.u32, h.name), (.u32, h.type), (address, h.flags), (address, h.address), (address, h.offset),
      (address, h.size), (.u32, h.link), (.u32, h.info), (address, h.alignment),
      (address, h.entrySize)]
  | elfSymbol ident, (s : Elf.Symbol) =>
    let address := ident.fileClass.address
    [(.u32, s.name), (address, s.value), (address, s.size), (.u8, s.info), (.u8, s.other),
      (.u16, s.sectionIndex)]
  | dynamicEntry ident, (d : Elf.DynamicEntry) =>
    [(ident.fileClass.signedAddress, d.tag), (ident.fileClass.address, d.value)]
  | machOHeader _, (h : MachO.Header) => [
    (.u32, h.magic), (.i32, h.cpuType), (.i32, h.cpuSubtype), (.u32, h.fileType),
    (.u32, h.commandCount), (.u32, h.commandsSize), (.u32, h.flags)]
  | arch, (a : MachO.Arch) => [
    (.i32, a.cpuType), (.i32, a.cpuSubtype), (.u32, a.offset), (.u32, a.size), (.u32, a.alignment)]

/-- A record has its own mark, and names and identifications of the right size. -/
def Proper : (form : RecordForm) → form.Record → Prop
  | dosHeader, (h : Pe.DosHeader) => h.magic = 0x5A4D
  | optionalHeader .pe32, (h : Pe.OptionalHeader) => h.magic = 0x10B
  | optionalHeader .pe32Plus, (h : Pe.OptionalHeader) => h.magic = 0x20B
  | peSection, (h : Pe.SectionHeader) => h.name.length = 8
  | elfHeader _, (h : Elf.Header) => h.ident.length = 16
  | _, _ => True

/-- The numbers of a record are those of its layout. -/
theorem mem_numbers_iff (form : RecordForm) (r : form.Record) (n : Word × Int) :
    n ∈ form.numbers r ↔ n ∈ form.codec.layout.numbers (form.codec.toRow r) := by
  cases form with
  | elfSymbol ident =>
    obtain ⟨fileClass, order, osAbi⟩ := ident
    cases fileClass with
    | class32 => rfl
    | class64 =>
      -- value and size stand in front of the small fields here, and behind them in the layout
      simp only [numbers, codec, Elf.Symbol.codec, Elf.Symbol.codec64, Layout.numbers,
        Elf.FileClass.address, List.mem_cons, List.not_mem_nil, or_false]
      grind
  | optionalHeader kind => cases kind <;> rfl
  | dosHeader | coffHeader | dataDirectory | peSection | importDescriptor | elfHeader | elfSection
  | dynamicEntry | machOHeader | arch => rfl

/-- In a proper record names and identifications have the size of their fields. -/
theorem exact_of_proper {form : RecordForm} {r : form.Record} (h : form.Proper r) :
    form.codec.Exact r := by
  cases form with
  | peSection => exact ⟨h, trivial⟩
  | elfHeader ident => exact ⟨h, trivial⟩
  | optionalHeader kind => cases kind <;> trivial
  | elfSymbol ident =>
    obtain ⟨fileClass, order, osAbi⟩ := ident
    cases fileClass <;> trivial
  | dosHeader | coffHeader | dataDirectory | importDescriptor | elfSection | dynamicEntry
  | machOHeader | arch => trivial

/-- A record of any form is refused exactly for a number that does not fit. -/
theorem write?_eq_none_iff (form : RecordForm) (r : form.Record) :
    form.write? r = none ↔ ∃ n ∈ form.numbers r, ¬ n.1.Fits n.2 := by
  have hwrite : form.write? r = none ↔ form.codec.write? r = none := by
    cases form with
    -- what stands behind the header has no number of its own
    | machOHeader order => exact Option.map_eq_none_iff
    | _ => exact Iff.rfl
  simp only [hwrite, Codec.write?_eq_none_iff, mem_numbers_iff]

/-- What is written starts with the fields of the record. -/
theorem exists_of_write? {form : RecordForm} {r : form.Record} {bs : List UInt8}
    (h : form.write? r = some bs) : ∃ front more, form.codec.write? r = some front
      ∧ bs = front ++ more := by
  cases form with
  | machOHeader order =>
    -- what stands behind a header with 64-bit addresses is no field of it
    obtain ⟨front, hfront, rfl⟩ := Option.map_eq_some_iff.mp h
    show ∃ _ _, _ ∧ (if r.is64Bit then _ else _) = _
    split
    · exact ⟨front, _, hfront, rfl⟩
    · exact ⟨front, [], hfront, (List.append_nil front).symm⟩
  | _ => exact ⟨bs, [], h, (List.append_nil bs).symm⟩

/-- A proper record whose bytes stand at a place is read there. -/
theorem reads_of_heldAt {form : RecordForm} {r : form.Record} {data : Bytes} {start : Nat}
    (hproper : form.Proper r) (hplace : form.OnlyAtStart → start = 0)
    (h : form.codec.HeldAt data start r) : form.Reads data start r := by
  have hexact := exact_of_proper hproper
  -- most forms are read without a check; two have a mark, and two a place of their own
  cases form with
  | dosHeader =>
    -- the mark is looked at once the header is read
    have hread : Pe.read Pe.DosHeader.codec .dosHeader data start = .ok r :=
      Codec.readOr_of_heldAt hexact h _ _
    rw [Reads, Pe.DosHeader.decode_natCast, hread]
    exact if_pos hproper
  -- so is the mark that tells the two kinds apart
  | optionalHeader kind =>
    have hread : Pe.read (Pe.OptionalHeader.codec kind) .optionalHeader data start = .ok r :=
      Codec.readOr_of_heldAt hexact h _ _
    have hmagic : r.magic = kind.magic := by cases kind <;> exact hproper
    rw [Reads, Pe.OptionalHeader.decode_natCast, hread]
    exact if_pos hmagic
  | elfHeader ident =>
    obtain rfl : start = 0 := hplace trivial
    exact ⟨rfl, Codec.readOr_of_heldAt hexact h _ _⟩
  | machOHeader order =>
    obtain rfl : start = 0 := hplace trivial
    exact ⟨rfl, Codec.readOr_of_heldAt hexact h _ _⟩
  | coffHeader | dataDirectory | peSection | importDescriptor | elfSection | elfSymbol
  | dynamicEntry | arch => exact Codec.readOr_of_heldAt hexact h _ _

end RecordForm

/-- Writing a record is refused exactly when one of its numbers does not fit its word; otherwise the
record is read back from the bytes, behind any bytes and before any others. -/
theorem record_read_back (form : RecordForm) (r : form.Record) :
    (form.write? r = none ↔ ∃ n ∈ form.numbers r, ¬ n.1.Fits n.2)
      ∧ (form.Proper r → ∀ bs, form.write? r = some bs → ∀ front back : List UInt8,
          (form.OnlyAtStart → front = []) →
            form.Reads (front ++ bs ++ back).toArray front.length r) := by
  refine ⟨form.write?_eq_none_iff r, ?_⟩
  intro hproper bs hwrite front back hplace
  obtain ⟨bytes, more, hbytes, rfl⟩ := RecordForm.exists_of_write? hwrite
  -- the bytes of the record stand behind those in front, whatever comes after them
  apply RecordForm.reads_of_heldAt hproper
  · intro hstart
    rw [hplace hstart, List.length_nil]
  · rw [← List.append_assoc front, List.append_assoc (front ++ bytes)]
    exact ⟨bytes, hbytes, Bytes.holdsAt_append front bytes (more ++ back)⟩

/-- The header of a section called `.text`. -/
def codeSection : Pe.SectionHeader where
  name := [0x2E, 0x74, 0x65, 0x78, 0x74, 0, 0, 0]
  virtualSize := 16
  virtualAddress := 0x1000
  rawSize := 512
  rawOffset := 1024
  relocationsOffset := 0
  lineNumbersOffset := 0
  relocationCount := 0
  lineNumberCount := 0
  characteristics := 0x60000020

/-- The header is written, and is read behind three bytes and before another. -/
theorem codeSection_read_back :
    ∃ bs, Pe.SectionHeader.codec.write? codeSection = some bs
      ∧ Pe.SectionHeader.decode ([1, 2, 3] ++ bs ++ [4]).toArray 3 = .ok codeSection :=
  ⟨_, rfl, (record_read_back .peSection codeSection).2 rfl _ rfl [1, 2, 3] [4] nofun⟩

end Provenance
