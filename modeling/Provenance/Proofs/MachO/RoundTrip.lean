import Provenance.Proofs.MachO.Written

/-!
# Images are read back

Reading undoes writing: an image that was written from a draft is read as what the draft says, in
either byte order, with either header, whatever bytes follow it.

* `CommandDraft.foundAt` — one load command, where its bytes stand; one case for each kind.
* `CommandDraft.found_run` — a run of them, by induction on the list: each command starts where the
  bytes of the one before it end, which is where its size points.
* `written_image_read_back` — the image as a whole; what is found does not depend on the byte order
  or on the width of the header.
-/

namespace Provenance.MachO

/-- The load command at a place is the one that was to be written. -/
structure CommandDraft.FoundAt (c : CommandDraft) (data : Bytes) (order : ByteOrder)
    (stop place : Nat) : Prop where
  fits : CommandFits data order stop place
  size : sizeAt data order place = c.size
  said : commandOf data order place = c.said

/-!
## One command

A command of each kind is found where it was written: it fits there, it takes as many bytes as were
written, and it says what it said in the draft.
-/

section Command

variable {data : Bytes} {order : ByteOrder} {stop place : Nat} {bs : List UInt8}

/-- The two words that every command starts with. -/
theorem words_of_heldAt {c : LoadCommand} (h : (LoadCommand.codec order).HeldAt data place c) :
    (commandAt data order place : Int) = c.command ∧ (sizeAt data order place : Int) = c.size := by
  have hrecord : (LoadCommand.codec order).recordAt data place = c :=
    Codec.recordAt_of_heldAt trivial h
  rw [← loadCommand_command, ← loadCommand_size, hrecord]
  exact ⟨rfl, rfl⟩

/-- A segment is read back from the fields that stand behind its two words. -/
theorem segmentAt_of_heldAt {width : AddressWidth} {s : Segment} (hname : IsName s.name)
    (h : (Codec.rows (Segment.layout width) order).HeldAt data (place + 8) (s.toRow width)) :
    segmentAt data order width place = s := by
  have hrecord : (Codec.rows (Segment.layout width) order).recordAt data (place + 8)
      = s.toRow width := Codec.recordAt_of_heldAt (Segment.exact_toRow width s) h
  rw [segmentAt, hrecord, Segment.ofRow_toRow hname]

/-- A section is read back from its record, whatever the reserved words are. -/
theorem sectionAt_of_heldAt {width : AddressWidth} {s : SectionDraft width} (hproper : s.Proper)
    (h : (Codec.rows (Section.fullLayout width) order).HeldAt data place s.toRow) :
    sectionAt data order width place = s.record := by
  have hrecord : (Codec.rows (Section.fullLayout width) order).recordAt data place = s.toRow :=
    Codec.recordAt_of_heldAt (Section.exact_toRow width s.record s.reserved) h
  -- up to the reserved words, both layouts have the same fields
  have hfull : sectionAt data order width place
      = Section.ofFullRow width
          ((Codec.rows (Section.fullLayout width) order).recordAt data place) := by
    rw [sectionAt, Codec.recordAt, Codec.recordAt, Section.fullLayout_size, Section.size_eq]
    rfl
  rw [hfull, hrecord]
  exact Section.ofFullRow_toRow hproper.name hproper.segmentName

/-- A segment whose bytes stand at a place is found there, with its sections. -/
theorem CommandDraft.segment_foundAt {width : AddressWidth} {s : Segment}
    {sections : List (SectionDraft width)} (hproper : (segment width s sections).Proper)
    (hwrite : (segment width s sections).write? order = some bs) (hheld : data.HoldsAt place bs)
    (hstop : place + (segment width s sections).size ≤ stop) :
    (segment width s sections).FoundAt data order stop place := by
  obtain ⟨hname, hcount, -, hsections⟩ := hproper
  -- the bytes are those of the two words, of the fields and of the section records
  simp only [write?, Option.bind_eq_bind, Option.bind_eq_some_iff, Option.pure_def,
    Option.some.injEq] at hwrite
  obtain ⟨head, hhead, fields, hfields, records, hrecords, rfl⟩ := hwrite
  obtain ⟨hcommand, hown⟩ := words_of_heldAt ⟨head, hhead, hheld.take⟩
  have hheadSize : head.length = 8 := Codec.length_of_write? hhead
  have hrest : data.HoldsAt (place + 8) (fields ++ records) := hheadSize ▸ hheld.drop
  have hsegment : segmentAt data order width place = s :=
    segmentAt_of_heldAt hname ⟨fields, hfields, hrest.take⟩
  -- the section records start where the fields of the segment end
  have hsegmentSize := Segment.head_add_size width order
  have hfieldsSize := Codec.length_of_write? hfields
  have hplace : place + 8 + fields.length = place + width.segmentSize := by omega
  have hheldRecords : data.HoldsAt (place + width.segmentSize) records := hplace ▸ hrest.drop
  have hnumber : sectionCountAt data order width place = sections.length := by
    have hread := segmentAt_sectionCount data order place width
    rw [hsegment, hcount] at hread
    exact_mod_cast hread.symm
  -- the two words make it a segment of that width, as long as it says
  have hwidth : LoadCommand.segmentWidth? (commandAt data order place) = some width := by
    rw [hcommand]
    exact segmentWidth?_segmentCommand width
  have hsize : sizeAt data order place = (segment width s sections).size :=
    Int.ofNat_inj.mp hown
  have hroom : (segment width s sections).size
      = width.segmentSize + sections.length * width.sectionSize := rfl
  have hleast := width.eight_le_segmentSize
  constructor
  case size => exact hsize
  case fits =>
    apply CommandFits.of_segment hwidth
    · omega
    · omega
    · rw [nextPlace, hsize]
      exact hstop
    · rw [hnumber, hsize]
      exact Nat.le_refl _
  case said =>
    simp only [commandOf, hwidth, hsegment, hnumber]
    -- the reader finds the records by their number, and the draft has them in a list
    show Command.segment s _ = Command.segment s (sections.map (·.record))
    congr 1
    apply List.ext_getElem
    · rw [List.length_map, List.length_map, List.length_range]
    · intro i hi hi'
      rw [List.length_map, List.length_range] at hi
      rw [List.getElem_map, List.getElem_range, List.getElem_map]
      have hget : (sections.map (·.toRow))[i]? = some sections[i].toRow := by
        rw [List.getElem?_map, List.getElem?_eq_getElem hi, Option.map_some]
      have hheldRecord := Codec.heldAt_of_writeAll? hrecords hheldRecords hget
      rw [Section.fullLayout_size] at hheldRecord
      exact sectionAt_of_heldAt (hsections _ (List.getElem_mem hi)) hheldRecord

/-- A library whose bytes stand at a place is found there, with its path. -/
theorem CommandDraft.library_foundAt {l : Library} {zeros : Nat}
    (hproper : (library l zeros).Proper) (hwrite : (library l zeros).write? order = some bs)
    (hheld : data.HoldsAt place bs) (hstop : place + (library l zeros).size ≤ stop) :
    (library l zeros).FoundAt data order stop place := by
  obtain ⟨hcommand, hnul, hzeros, -⟩ := hproper
  simp only [write?, Option.bind_eq_bind, Option.bind_eq_some_iff, Option.pure_def,
    Option.some.injEq] at hwrite
  obtain ⟨fixed, hfixed, rfl⟩ := hwrite
  have hrecord : (LibraryCommand.codec order).recordAt data place = _ :=
    Codec.recordAt_of_heldAt trivial ⟨fixed, hfixed, hheld.take⟩
  have hfixedSize : fixed.length = librarySize := Codec.length_of_write? hfixed
  -- behind the fixed part stand the path and its zeros, up to the end of the command
  have hpath := hheld.drop
  rw [hfixedSize] at hpath
  obtain ⟨-, hpath⟩ := hpath
  have hcommandAt : (commandAt data order place : Int) = l.command := by
    have hword : ((LibraryCommand.codec order).recordAt data place).command
        = commandAt data order place :=
      Word.decode_drop_take .u32 order data place 24 0 rfl (by decide)
    rw [← hword, hrecord]
  have hsize : sizeAt data order place = (library l zeros).size := by
    have hword := libraryCommand_size data order place
    rw [hrecord] at hword
    exact Int.ofNat_inj.mp hword.symm
  have hoffset : nameOffsetAt data order place = librarySize := by
    have hword := libraryCommand_nameOffset data order place
    rw [hrecord] at hword
    exact Int.ofNat_inj.mp hword.symm
  have hnext : nextPlace data order place = place + (library l zeros).size := by
    rw [nextPlace, hsize]
  have hlibrary : (commandAt data order place : Int) ∈ LoadCommand.libraryCommands := by
    rw [hcommandAt]
    exact hcommand
  -- no command is both a library and a segment
  have hwidth : LoadCommand.segmentWidth? (commandAt data order place) = none := by
    cases hsome : LoadCommand.segmentWidth? (commandAt data order place) with
    | none => rfl
    | some width => exact absurd hlibrary (not_mem_libraryCommands hsome)
  have hroom : (library l zeros).size
      = 24 + (utf8Bytes l.name ++ List.replicate zeros 0).length := rfl
  rw [List.length_append, List.length_replicate] at hroom
  have hfixedRoom : librarySize = 24 := rfl
  constructor
  case size => exact hsize
  case fits =>
    apply CommandFits.of_not_segment hwidth
    · omega
    · omega
    · omega
    · intro _
      omega
  case said =>
    -- the path ends at the first of the zeros behind it
    have hname : libraryAt data order place = l := by
      rw [libraryAt, hrecord, hoffset, hnext, size, ← Nat.add_assoc, hpath]
      simp only
      rw [takeWhile_append_zeros (zero_not_mem_utf8Bytes hnul), utf8Text_utf8Bytes]
    simp only [commandOf, hwidth, if_pos hlibrary, hname]
    rfl

/-- Any other command whose bytes stand at a place is passed over there. -/
theorem CommandDraft.other_foundAt {command : Int} {body : List UInt8}
    (hproper : (other command body).Proper) (hwrite : (other command body).write? order = some bs)
    (hheld : data.HoldsAt place bs) (hstop : place + (other command body).size ≤ stop) :
    (other command body).FoundAt data order stop place := by
  obtain ⟨-, hsegment, hlibrary⟩ := hproper
  simp only [write?, Option.bind_eq_bind, Option.bind_eq_some_iff, Option.pure_def,
    Option.some.injEq] at hwrite
  obtain ⟨head, hhead, rfl⟩ := hwrite
  obtain ⟨hcommand, hown⟩ := words_of_heldAt ⟨head, hhead, hheld.take⟩
  simp only at hcommand hown
  -- the command in the file is neither a segment nor a library, so that only its two words are read
  rw [← hcommand] at hsegment hlibrary
  have hsize : sizeAt data order place = (other command body).size := Int.ofNat_inj.mp hown
  have hroom : (other command body).size = 8 + body.length := rfl
  constructor
  case size => exact hsize
  case fits =>
    apply CommandFits.of_not_segment hsegment
    · omega
    · omega
    · rw [nextPlace, hsize]
      exact hstop
    · exact fun hmem => absurd hmem hlibrary
  case said =>
    simp only [commandOf, hsegment, if_neg hlibrary]
    rfl

/-- A command whose bytes stand at a place is found there. -/
theorem CommandDraft.foundAt {c : CommandDraft} (hproper : c.Proper)
    (hwrite : c.write? order = some bs) (hheld : data.HoldsAt place bs)
    (hstop : place + c.size ≤ stop) : c.FoundAt data order stop place := by
  cases c with
  | segment width s sections => exact segment_foundAt hproper hwrite hheld hstop
  | library l zeros => exact library_foundAt hproper hwrite hheld hstop
  | other command body => exact other_foundAt hproper hwrite hheld hstop

end Command

/-!
## A run of commands

Each command starts where the one in front of it ends, so that a run of them is found as it was
written, by induction on the commands.
-/

/-- Of commands whose bytes stand one after the other each is found at its place. -/
theorem CommandDraft.found_run {data : Bytes} {order : ByteOrder} {stop place : Nat}
    {commands : List CommandDraft} {bs : List UInt8} (hproper : ∀ c ∈ commands, c.Proper)
    (hroom : totalSize commands < 0x100000000) (hwrite : writeAll? order commands = some bs)
    (hheld : data.HoldsAt place bs) (hstop : place + totalSize commands ≤ stop) {i : Nat}
    {c : CommandDraft} (hi : commands[i]? = some c) :
    -- the first command is at the place itself, each later one behind the bytes of those before it
    c.FoundAt data order stop ((nextPlace data order)^[i] place) := by
  induction commands generalizing place bs i with
  | nil => cases hi
  | cons first rest ih =>
    obtain ⟨here, more, hhere, hmore, rfl⟩ := writeAll?_cons.mp hwrite
    rw [totalSize] at hroom hstop
    have hfirst := hproper first List.mem_cons_self
    have hfound : first.FoundAt data order stop place :=
      foundAt hfirst hhere hheld.take (by omega)
    cases i with
    | zero =>
      cases hi
      exact hfound
    | succ i =>
      -- the first command is as long as its bytes, so that the others stand behind it
      obtain ⟨here', hhere', hlength⟩ := exists_write? hfirst (by omega) order
      cases hhere.symm.trans hhere'
      have hnext : nextPlace data order place = place + here.length := by
        rw [nextPlace, hfound.size, hlength]
      have hrest : totalSize rest < 0x100000000 := Nat.lt_of_le_of_lt (Nat.le_add_left ..) hroom
      rw [Function.iterate_succ_apply, hnext]
      refine ih (fun d hd => hproper d (List.mem_cons_of_mem first hd)) hrest hmore hheld.drop ?_ hi
      rw [hlength]
      omega

/-! ## The image -/

namespace Draft

/-- The segments of the draft, in the order of their commands. -/
def segments (d : Draft) : List Segment := (d.commands.map (·.said)).filterMap (·.segment?)

/-- The sections of the draft: those of each segment stand together. -/
def sections (d : Draft) : List Section := (d.commands.map (·.said)).flatMap (·.sections)

/-- The libraries of the draft, in the order of their commands. -/
def libraries (d : Draft) : List Library := (d.commands.map (·.said)).filterMap (·.library?)

/-- The image that is written. -/
def image (d : Draft) (order : ByteOrder) (width : AddressWidth) : Image where
  order := order
  header := d.header width
  segments := d.segments
  sections := d.sections
  libraries := d.libraries

variable {d : Draft} {order : ByteOrder} {width : AddressWidth} {bs : List UInt8}

/-- The header stands at the start, and the commands behind it. -/
theorem held_of_write? (hwrite : d.write? order width = some bs) (rest : List UInt8) :
    (Header.codec order).HeldAt (bs ++ rest).toArray 0 (d.header width)
      ∧ ∃ body, CommandDraft.writeAll? order d.commands = some body
          ∧ Bytes.HoldsAt (bs ++ rest).toArray (d.header width).size.toNat body := by
  simp only [write?, Header.encode?, Option.bind_eq_bind, Option.bind_eq_some_iff, Option.pure_def,
    Option.some.injEq, Option.map_eq_some_iff] at hwrite
  obtain ⟨-, ⟨head, hhead, rfl⟩, body, hbody, rfl⟩ := hwrite
  have hheadSize : head.length = 28 := Codec.length_of_write? hhead
  -- with 64-bit addresses four bytes stand between the two
  obtain ⟨gap, hgap, hsize⟩ : ∃ gap : List UInt8,
      (if (d.header width).is64Bit then head ++ List.replicate 4 0 else head) = head ++ gap
        ∧ (d.header width).size.toNat = (head ++ gap).length := by
    rw [Header.size]
    split
    · exact ⟨List.replicate 4 0, rfl, by rw [List.length_append, hheadSize]; rfl⟩
    · exact ⟨[], (List.append_nil head).symm, by rw [List.append_nil, hheadSize]; rfl⟩
  rw [hgap, hsize]
  refine ⟨⟨head, hhead, ?_⟩, body, hbody, Bytes.holdsAt_append (head ++ gap) body rest⟩
  have hplace := Bytes.holdsAt_append [] head (gap ++ body ++ rest)
  rw [List.nil_append, ← List.append_assoc, ← List.append_assoc] at hplace
  exact hplace

/-- A file that starts with the bytes of a proper draft has its commands. -/
theorem hasCommands_of_write? (h : d.Proper) (hwrite : d.write? order width = some bs)
    (rest : List UInt8) :
    HasCommands (bs ++ rest).toArray order
      ∧ headerOf (bs ++ rest).toArray order = d.header width
      ∧ (List.range (commandCount (bs ++ rest).toArray order)).map
          (fun i =>
            commandOf (bs ++ rest).toArray order (commandPlace (bs ++ rest).toArray order i))
        = d.commands.map (·.said) := by
  obtain ⟨hheader, body, hbody, hheld⟩ := held_of_write? hwrite rest
  -- from here on the file is one that holds the header and the commands, however it was made
  generalize (bs ++ rest).toArray = data at hheader hheld ⊢
  have hrecord : headerOf data order = d.header width := Codec.recordAt_of_heldAt trivial hheader
  -- the words of the header are those of the draft
  have hmagic : Bytes.number data order 0 4 = width.magic := by
    have hword := header_magic data order
    rw [← headerOf, hrecord] at hword
    exact Int.ofNat_inj.mp hword.symm
  have hcount : commandCount data order = d.commands.length := by
    have hword := header_commandCount data order
    rw [← headerOf, hrecord] at hword
    exact Int.ofNat_inj.mp hword.symm
  have hcommandsSize : commandsSize data order = CommandDraft.totalSize d.commands := by
    have hword := header_commandsSize data order
    rw [← headerOf, hrecord] at hword
    exact Int.ofNat_inj.mp hword.symm
  have hstart : (d.header width).size.toNat = startPlace data order := by
    rw [← hrecord, headerOf_size, Int.toNat_natCast]
  rw [hstart] at hheld
  have hstop : stopPlace data order
      = startPlace data order + CommandDraft.totalSize d.commands := by
    rw [stopPlace, hcommandsSize]
  -- so every command of the draft is found where the reader looks for it
  have hfound : ∀ {i : Nat} {c : CommandDraft}, d.commands[i]? = some c →
      c.FoundAt data order (stopPlace data order) (commandPlace data order i) :=
    CommandDraft.found_run h.commands h.size hbody hheld (Nat.le_of_eq hstop.symm)
  refine ⟨?_, hrecord, ?_⟩
  · constructor
    case magic =>
      rw [hmagic]
      cases width with
      | bits32 => exact .inl rfl
      | bits64 => exact .inr rfl
    case header =>
      obtain ⟨head, hhead, hsize, -⟩ := hheader
      rw [Codec.length_of_write? hhead] at hsize
      exact hsize
    case count =>
      rw [hcount]
      exact h.count
    -- the bytes of the commands are as many as the header says, and they are all there
    case room =>
      obtain ⟨body', hbody', hlength⟩ := CommandDraft.exists_writeAll? h.commands h.size order
      cases hbody.symm.trans hbody'
      rw [hstop, ← hlength]
      exact hheld.1
    case commands =>
      intro i hi
      rw [hcount] at hi
      exact (hfound (List.getElem?_eq_getElem hi)).fits
  · rw [hcount]
    apply List.ext_getElem
    · rw [List.length_map, List.length_map, List.length_range]
    · intro i hi hi'
      rw [List.length_map] at hi'
      rw [List.getElem_map, List.getElem_range, List.getElem_map]
      exact (hfound (List.getElem?_eq_getElem hi')).said

end Draft

/-- In either byte order and with either header, a proper draft is written, and the bytes, whatever
follows them, are read as the image of the draft. The names found are those of the draft, and so the
same in either byte order and with either header. -/
theorem written_image_read_back (d : Draft) (h : d.Proper) (order : ByteOrder)
    (width : AddressWidth) :
    ∃ bs, d.write? order width = some bs ∧ ∀ rest : List UInt8,
      ∃ img, Image.ofBytes (bs ++ rest).toArray = .ok img
        ∧ img.order = order ∧ img.header = d.header width
        ∧ img.segments = d.segments ∧ img.sections = d.sections ∧ img.libraries = d.libraries
        ∧ ∀ order' width' bs' rest' img', d.write? order' width' = some bs' →
            Image.ofBytes (bs' ++ rest').toArray = .ok img' →
              img'.segmentNames = img.segmentNames ∧ img'.sectionNames = img.sectionNames
                ∧ img'.importedLibraries = img.importedLibraries := by
  -- the image depends on the layout only through its order and its header
  have hread : ∀ {order width bs}, d.write? order width = some bs → ∀ rest : List UInt8,
      Image.ofBytes (bs ++ rest).toArray = .ok (d.image order width) := by
    intro order width bs hwrite rest
    obtain ⟨hcommands, hheader, hsaid⟩ := Draft.hasCommands_of_write? h hwrite rest
    rw [Image.ofBytes_of_hasCommands hcommands, hheader, hsaid]
    rfl
  obtain ⟨bs, hwrite⟩ := Draft.exists_write? h order width
  refine ⟨bs, hwrite, fun rest => ⟨d.image order width, hread hwrite rest, rfl, rfl, rfl, rfl, rfl,
    ?_⟩⟩
  intro order' width' bs' rest' img' hwrite' hok
  cases (hread hwrite' rest').symm.trans hok
  exact ⟨rfl, rfl, rfl⟩

/-- An image with segments of both widths, a library and another command. -/
def mixedDraft : Draft where
  cpuType := 0x01000007
  cpuSubtype := 3
  fileType := 2
  flags := 0
  commands := [
    .segment .bits64 ⟨"__TEXT", 0, 0x1000, 0, 0, 7, 5, 1, 0⟩
      [⟨⟨"__text", "__TEXT", 0, 16, 0, 4, 0, 0, 0⟩, (1, 2, 3, ())⟩],
    .library ⟨0xC, "/usr/lib/libSystem.B.dylib", 2, 0x10000, 0x10000⟩ 6,
    .other 0x1B [0xDE, 0xAD, 0xBE, 0xEF],
    .segment .bits32 ⟨"__DATA", 0, 0x1000, 0, 0, -1, 3, 2, 0⟩
      [⟨⟨"__data", "__DATA", 0, 0, 0, 0, 0, 0, 0⟩, (0, 0, ())⟩,
       ⟨⟨"__objc_classlist", "__DATA", 0, 0, 0, 0, 0, 0, 0⟩, (0, 0, ())⟩]]

/-- Written most significant byte first with a 32-bit header, with three bytes behind. -/
theorem mixedDraft_read_back :
    ∃ bs, mixedDraft.write? .big .bits32 = some bs ∧ ∃ img,
      Image.ofBytes (bs ++ [1, 2, 3]).toArray = .ok img ∧ img.segmentNames = ["__TEXT", "__DATA"]
        ∧ img.sectionNames = ["__text", "__data", "__objc_classlist"]
        ∧ img.importedLibraries = ["/usr/lib/libSystem.B.dylib"] := by
  obtain ⟨bs, hwrite, hread⟩ := written_image_read_back mixedDraft (by decide) .big .bits32
  obtain ⟨img, hok, -, -, hsegments, hsections, hlibraries, -⟩ := hread [1, 2, 3]
  refine ⟨bs, hwrite, img, hok, ?_, ?_, ?_⟩
  · rw [Image.segmentNames, hsegments]
    rfl
  · rw [Image.sectionNames, hsections]
    rfl
  · rw [Image.importedLibraries, hlibraries]
    rfl

end Provenance.MachO
