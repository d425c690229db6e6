import Provenance.Proofs.MachO.Acceptance
import Provenance.Proofs.Text

/-!
# Images that are written

An image from what it is to hold: its load commands one after the other, behind a header that gives
their number and their size. The records are packed in the layouts in which they are read, those of
sections with their reserved words.

* `CommandDraft`, `Draft` — what a load command, and an image, is written from.
* `CommandDraft.write?`, `Draft.write?` — the bytes, if every number fits its word.
* `CommandDraft.Proper`, `Draft.Proper` — names that their fields hold, and numbers in range.
* `Draft.exists_write?` — a proper draft is written, in either byte order and with either header.
-/

namespace Provenance.MachO

/-!
## Names

The field of a name has sixteen bytes, filled up with zeros. A name of ASCII characters comes back
if there is no zero among them and they are no more than the field has bytes.
-/

/-- A name of at most 16 ASCII characters, none of them NUL. -/
structure IsName (name : String) : Prop where
  ascii : IsAscii name
  length : name.length ≤ 16

instance (name : String) : Decidable (IsName name) :=
  decidable_of_iff (IsAscii name ∧ name.length ≤ 16)
    ⟨fun ⟨hascii, hlength⟩ => ⟨hascii, hlength⟩, fun h => ⟨h.ascii, h.length⟩⟩

/-- A name in its field of 16 bytes, filled up with zeros. -/
def nameField (name : String) : List UInt8 := fitTo 16 (asciiBytes name)

/-- A name is read back from its field. -/
theorem fixedName_nameField {name : String} (h : IsName name) :
    fixedName (nameField name) = name := by
  have hlength : (asciiBytes name).length ≤ 16 := by
    rw [length_asciiBytes]
    exact h.length
  -- nothing is cut off, and what fills the field up is not part of the name
  rw [fixedName, nameField, fitTo, List.take_of_length_le hlength,
    takeWhile_append_zeros (fun _ => ne_zero_of_mem_asciiBytes h.ascii),
    asciiText_asciiBytes h.ascii]

/-! ## Records -/

theorem fits_u32_natCast {n : Nat} (h : n < 0x100000000) : Word.u32.Fits n :=
  ⟨Int.natCast_nonneg n, by exact_mod_cast h⟩

/-- The command of a segment with addresses of some width. -/
def AddressWidth.segmentCommand : AddressWidth → Int
  | bits32 => 0x1
  | bits64 => 0x19

theorem segmentWidth?_segmentCommand (width : AddressWidth) :
    LoadCommand.segmentWidth? width.segmentCommand = some width := by
  cases width <;> rfl

namespace Segment

/-- The fields of a segment, its name in a field of 16 bytes. -/
def toRow (width : AddressWidth) (s : Segment) : (layout width).Row :=
  (nameField s.name, s.address, s.memorySize, s.fileOffset, s.fileSize, s.maxProtection,
    s.initialProtection, s.sectionCount, s.flags, ())

theorem ofRow_toRow {width : AddressWidth} {s : Segment} (h : IsName s.name) :
    ofRow width (s.toRow width) = s := by
  show Segment.mk (fixedName (nameField s.name)) .. = s
  rw [fixedName_nameField h]

theorem exact_toRow (width : AddressWidth) (s : Segment) : (layout width).Exact (s.toRow width) :=
  ⟨length_fitTo .., trivial⟩

end Segment

namespace Section

/-- The reserved words at the end of a section record: one more with 64-bit addresses. -/
def reservedLayout : AddressWidth → Layout
  | .bits32 => [.word .u32, .word .u32]
  | .bits64 => [.word .u32, .word .u32, .word .u32]

/-- A section record with its reserved words, which the reader skips. -/
def fullLayout (width : AddressWidth) : Layout :=
  .bytes 16 :: .bytes 16 :: .word width.word :: .word width.word :: .word .u32 :: .word .u32 ::
    .word .u32 :: .word .u32 :: .word .u32 :: reservedLayout width

example : (fullLayout .bits64).format .big = ">16s16sQQIIIIIIII" := by decide

theorem fullLayout_size (width : AddressWidth) (order : ByteOrder) :
    (Codec.rows (fullLayout width) order).size = width.sectionSize := by
  cases width <;> rfl

/-- The fields of a section record, with given reserved words. -/
def toRow (width : AddressWidth) (s : Section) (reserved : (reservedLayout width).Row) :
    (fullLayout width).Row :=
  (nameField s.name, nameField s.segmentName, s.address, s.size, s.offset, s.alignment,
    s.relocationsOffset, s.relocationCount, s.flags, reserved)

/-- The section with the given field values, whatever the reserved words are. -/
def ofFullRow (width : AddressWidth) : (fullLayout width).Row → Section :=
  fun (name, segment, address, size, offset, alignment, relocs, count, flags, _) =>
    ⟨fixedName name, fixedName segment, address, size, offset, alignment, relocs, count, flags⟩

/-- A section is the one that its fields make up, whatever the reserved words are. -/
theorem ofFullRow_toRow {width : AddressWidth} {s : Section}
    {reserved : (reservedLayout width).Row} (hname : IsName s.name)
    (hsegment : IsName s.segmentName) : ofFullRow width (s.toRow width reserved) = s := by
  show Section.mk (fixedName (nameField s.name)) (fixedName (nameField s.segmentName)) .. = s
  rw [fixedName_nameField hname, fixedName_nameField hsegment]

theorem exact_toRow (width : AddressWidth) (s : Section) (reserved : (reservedLayout width).Row) :
    (fullLayout width).Exact (s.toRow width reserved) := by
  refine ⟨length_fitTo .., length_fitTo .., ?_⟩
  -- there are words behind the two names, and nothing else
  cases width <;> trivial

end Section

/-! ## Load commands -/

/-- What a section record is written from. -/
structure SectionDraft (width : AddressWidth) where
  record : Section
  reserved : (Section.reservedLayout width).Row

namespace SectionDraft

variable {width : AddressWidth}

/-- The fields of the record that is written. -/
def toRow (s : SectionDraft width) : (Section.fullLayout width).Row :=
  s.record.toRow width s.reserved

/-- Both names fit their fields, and every number fits its word. -/
structure Proper (s : SectionDraft width) : Prop where
  name : IsName s.record.name
  segmentName : IsName s.record.segmentName
  numbers : (Section.fullLayout width).Fits s.toRow

instance (s : SectionDraft width) : Decidable s.Proper :=
  decidable_of_iff (IsName s.record.name ∧ IsName s.record.segmentName
      ∧ (Section.fullLayout width).Fits s.toRow)
    ⟨fun ⟨hname, hsegment, hnumbers⟩ => ⟨hname, hsegment, hnumbers⟩,
      fun h => ⟨h.name, h.segmentName, h.numbers⟩⟩

end SectionDraft

/-- What a load command is written from. -/
inductive CommandDraft where
  /-- A segment with its sections. -/
  | segment (width : AddressWidth) (segment : Segment) (sections : List (SectionDraft width))
  /-- A library, with zeros behind its path. -/
  | library (library : Library) (zeros : Nat)
  /-- Any other command. -/
  | other (command : Int) (body : List UInt8)

namespace CommandDraft

/-- How many bytes the command takes, as it says itself. -/
def size : CommandDraft → Nat
  | segment width _ sections => width.segmentSize + sections.length * width.sectionSize
  | library l zeros => librarySize + (utf8Bytes l.name ++ List.replicate zeros 0).length
  | other _ body => 8 + body.length

/-- What the command says. -/
def said : CommandDraft → Command
  | segment _ s sections => .segment s (sections.map (·.record))
  | library l _ => .library l
  | other .. => .other

/-- The bytes of the command, if every number fits its word. -/
def write? (order : ByteOrder) : CommandDraft → Option (List UInt8)
  | segment width s sections => do
    let head ← (LoadCommand.codec order).write?
      ⟨width.segmentCommand, (segment width s sections).size⟩
    let fields ← (Codec.rows (Segment.layout width) order).write? (s.toRow width)
    let records ← (Codec.rows (Section.fullLayout width) order).writeAll? (sections.map (·.toRow))
    return head ++ (fields ++ records)
  | library l zeros => do
    let fixed ← (LibraryCommand.codec order).write?
      ⟨l.command, (library l zeros).size, librarySize, l.timestamp, l.currentVersion,
        l.compatibilityVersion⟩
    -- the path stands right behind the fixed part
    return fixed ++ (utf8Bytes l.name ++ List.replicate zeros 0)
  | other command body => do
    let head ← (LoadCommand.codec order).write? ⟨command, (other command body).size⟩
    return head ++ body

/-- Names that their fields hold, the announced number of sections, a path that ends before the
command does, and numbers in range. -/
def Proper : CommandDraft → Prop
  | segment width s sections =>
    IsName s.name ∧ s.sectionCount = sections.length
      ∧ (Segment.layout width).Fits (s.toRow width) ∧ ∀ r ∈ sections, r.Proper
  | library l zeros =>
    l.command ∈ LoadCommand.libraryCommands ∧ '\x00' ∉ l.name.toList ∧ 1 ≤ zeros
      ∧ Word.u32.Fits l.timestamp ∧ Word.u32.Fits l.currentVersion
      ∧ Word.u32.Fits l.compatibilityVersion
  | other command _ =>
    Word.u32.Fits command ∧ LoadCommand.segmentWidth? command = none
      ∧ command ∉ LoadCommand.libraryCommands

instance : (c : CommandDraft) → Decidable c.Proper
  | segment width s sections =>
    inferInstanceAs (Decidable (IsName s.name ∧ s.sectionCount = sections.length
      ∧ (Segment.layout width).Fits (s.toRow width) ∧ ∀ r ∈ sections, r.Proper))
  | library l zeros =>
    inferInstanceAs (Decidable (l.command ∈ LoadCommand.libraryCommands ∧ '\x00' ∉ l.name.toList
      ∧ 1 ≤ zeros ∧ Word.u32.Fits l.timestamp ∧ Word.u32.Fits l.currentVersion
      ∧ Word.u32.Fits l.compatibilityVersion))
  | other command _ =>
    inferInstanceAs (Decidable (Word.u32.Fits command ∧ LoadCommand.segmentWidth? command = none
      ∧ command ∉ LoadCommand.libraryCommands))

theorem fits_of_mem_libraryCommands {command : Int} (h : command ∈ LoadCommand.libraryCommands) :
    Word.u32.Fits command := by
  revert command
  decide

/-- A proper command is written, and has the size that it gives itself. -/
theorem exists_write? {c : CommandDraft} (h : c.Proper) (hsize : c.size < 0x100000000)
    (order : ByteOrder) : ∃ bs, c.write? order = some bs ∧ bs.length = c.size := by
  -- the command gives its own size, so that there has to be a word for it
  have hown := fits_u32_natCast hsize
  -- one case for each kind; the words are written since they fit, and their bytes are counted
  cases c with
  | segment width s sections =>
    obtain ⟨-, -, hnumbers, hsections⟩ := h
    have hcommand : Word.u32.Fits width.segmentCommand := by cases width <;> decide
    obtain ⟨head, hhead⟩ := Codec.exists_write?_of_fits (c := LoadCommand.codec order)
      (a := ⟨width.segmentCommand, (segment width s sections).size⟩) ⟨hcommand, hown, trivial⟩
    obtain ⟨fields, hfields⟩ := Codec.exists_write?_of_fits
      (c := Codec.rows (Segment.layout width) order) (a := s.toRow width) hnumbers
    have hrows : ∀ row ∈ sections.map (·.toRow),
        (Codec.rows (Section.fullLayout width) order).Fits row := by
      intro row hrow
      obtain ⟨r, hr, rfl⟩ := List.mem_map.mp hrow
      exact (hsections r hr).numbers
    obtain ⟨records, hrecords⟩ := Codec.exists_writeAll?_of_fits hrows
    refine ⟨head ++ (fields ++ records), ?_, ?_⟩
    · rw [write?, hhead, hfields, hrecords]
      rfl
    · have hsegment := Segment.head_add_size width order
      have hheadSize : head.length = 8 := Codec.length_of_write? hhead
      have hfieldsSize := Codec.length_of_write? hfields
      have hrecordsSize := Codec.length_of_writeAll? hrecords
      rw [List.length_map, Section.fullLayout_size] at hrecordsSize
      rw [List.length_append, List.length_append, size]
      omega
  | library l zeros =>
    obtain ⟨hcommand, -, -, htime, hcurrent, hcompatible⟩ := h
    obtain ⟨fixed, hfixed⟩ := Codec.exists_write?_of_fits (c := LibraryCommand.codec order)
      (a := ⟨l.command, (library l zeros).size, librarySize, l.timestamp, l.currentVersion,
        l.compatibilityVersion⟩)
      ⟨fits_of_mem_libraryCommands hcommand, hown, fits_u32_natCast (by decide), htime, hcurrent,
        hcompatible, trivial⟩
    refine ⟨fixed ++ (utf8Bytes l.name ++ List.replicate zeros 0), ?_, ?_⟩
    · rw [write?, hfixed]
      rfl
    · have hfixedSize : fixed.length = librarySize := Codec.length_of_write? hfixed
      rw [List.length_append, hfixedSize, size]
  | other command body =>
    obtain ⟨hcommand, -, -⟩ := h
    obtain ⟨head, hhead⟩ := Codec.exists_write?_of_fits (c := LoadCommand.codec order)
      (a := ⟨command, (other command body).size⟩) ⟨hcommand, hown, trivial⟩
    refine ⟨head ++ body, ?_, ?_⟩
    · rw [write?, hhead]
      rfl
    · have hheadSize : head.length = 8 := Codec.length_of_write? hhead
      rw [List.length_append, hheadSize, size]

/-- The bytes of the commands, one after the other. -/
def writeAll? (order : ByteOrder) : List CommandDraft → Option (List UInt8)
  | [] => some []
  | c :: rest => do
    let here ← c.write? order
    let more ← writeAll? order rest
    return here ++ more

/-- The bytes of a run of commands are those of the first and those of the others. -/
theorem writeAll?_cons {order : ByteOrder} {c : CommandDraft} {rest : List CommandDraft}
    {bs : List UInt8} :
    writeAll? order (c :: rest) = some bs ↔
      ∃ here more, c.write? order = some here ∧ writeAll? order rest = some more
        ∧ here ++ more = bs := by
  simp only [writeAll?, Option.bind_eq_bind, Option.bind_eq_some_iff, Option.pure_def,
    Option.some.injEq, exists_and_left]

/-- How many bytes the commands take together. -/
def totalSize : List CommandDraft → Nat
  | [] => 0
  | c :: rest => c.size + totalSize rest

/-- Proper commands are written, in as many bytes as they take together. -/
theorem exists_writeAll? {commands : List CommandDraft} (h : ∀ c ∈ commands, c.Proper)
    (hsize : totalSize commands < 0x100000000) (order : ByteOrder) :
    ∃ bs, writeAll? order commands = some bs ∧ bs.length = totalSize commands := by
  induction commands with
  | nil => exact ⟨[], rfl, rfl⟩
  | cons c rest ih =>
    rw [totalSize] at hsize ⊢
    have hrest : totalSize rest < 0x100000000 := Nat.lt_of_le_of_lt (Nat.le_add_left ..) hsize
    -- a command is no longer than all of them are
    obtain ⟨here, hhere, hhereSize⟩ := exists_write? (h c List.mem_cons_self) (by omega) order
    obtain ⟨more, hmore, hmoreSize⟩ := ih (fun d hd => h d (List.mem_cons_of_mem c hd)) hrest
    refine ⟨here ++ more, writeAll?_cons.mpr ⟨here, more, hhere, hmore, rfl⟩, ?_⟩
    rw [List.length_append, hhereSize, hmoreSize]

end CommandDraft

/-!
## Images

A draft is written as its header, its commands one behind the other, and any bytes behind them.
-/

/-- What an image is written from. -/
structure Draft where
  cpuType : Int
  cpuSubtype : Int
  fileType : Int
  flags : Int
  commands : List CommandDraft

namespace Draft

/-- The header, which announces the commands and the bytes that they take. -/
def header (d : Draft) (width : AddressWidth) : Header where
  magic := width.magic
  cpuType := d.cpuType
  cpuSubtype := d.cpuSubtype
  fileType := d.fileType
  commandCount := d.commands.length
  commandsSize := CommandDraft.totalSize d.commands
  flags := d.flags

/-- The bytes of the image, if every number fits its word. -/
def write? (order : ByteOrder) (width : AddressWidth) (d : Draft) : Option (List UInt8) := do
  let head ← (d.header width).encode? order
  let body ← CommandDraft.writeAll? order d.commands
  return head ++ body

/-- The commands are proper and not too many, they take less than 4 GiB, and the numbers of the
header are in range. -/
structure Proper (d : Draft) : Prop where
  cpuType : Word.i32.Fits d.cpuType
  cpuSubtype : Word.i32.Fits d.cpuSubtype
  fileType : Word.u32.Fits d.fileType
  flags : Word.u32.Fits d.flags
  count : d.commands.length ≤ 65536
  size : CommandDraft.totalSize d.commands < 0x100000000
  commands : ∀ c ∈ d.commands, c.Proper

instance (d : Draft) : Decidable d.Proper :=
  decidable_of_iff (Word.i32.Fits d.cpuType ∧ Word.i32.Fits d.cpuSubtype ∧ Word.u32.Fits d.fileType
      ∧ Word.u32.Fits d.flags ∧ d.commands.length ≤ 65536
      ∧ CommandDraft.totalSize d.commands < 0x100000000 ∧ ∀ c ∈ d.commands, c.Proper)
    ⟨fun ⟨hcpu, hsubtype, htype, hflags, hcount, hsize, hcommands⟩ =>
      ⟨hcpu, hsubtype, htype, hflags, hcount, hsize, hcommands⟩,
      fun h => ⟨h.cpuType, h.cpuSubtype, h.fileType, h.flags, h.count, h.size, h.commands⟩⟩

/-- The header of a proper draft fits its words. -/
theorem Proper.fits_header {d : Draft} (h : d.Proper) (order : ByteOrder) (width : AddressWidth) :
    (Header.codec order).Fits (d.header width) := by
  have hcount := h.count
  have hmagic : Word.u32.Fits width.magic := by cases width <;> decide
  exact ⟨hmagic, h.cpuType, h.cpuSubtype, h.fileType, fits_u32_natCast (by omega),
    fits_u32_natCast h.size, h.flags, trivial⟩

/-- A proper draft is written, with either header and in either byte order. -/
theorem exists_write? {d : Draft} (h : d.Proper) (order : ByteOrder) (width : AddressWidth) :
    ∃ bs, d.write? order width = some bs := by
  obtain ⟨head, hhead⟩ := Codec.exists_write?_of_fits (h.fits_header order width)
  obtain ⟨body, hbody, -⟩ := CommandDraft.exists_writeAll? h.commands h.size order
  refine ⟨(if (d.header width).is64Bit then head ++ List.replicate 4 0 else head) ++ body, ?_⟩
  rw [write?, Header.encode?, hhead, hbody]
  rfl

end Draft

end Provenance.MachO
