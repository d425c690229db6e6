import Provenance.Proofs.Elf.Contents

/-!
# Reading back what was written

A file that holds some contents is read as these contents, in each class and byte order. Nothing is
asked of where the records stand, as long as the headers point to them. The reader goes from the
header to the section headers, from these to the tables, and from the tables to their strings, and
so do the lemmas.

* `readEntries_eq` — a table is read back from the bytes of its records.
* `Contents.HeldBy.symbols_eq`, `Contents.HeldBy.dynamicEntries_eq` and their partners — what the
  reader finds in a file that holds contents.
* `Contents.Alike` — two files hold the same names, symbols, dynamic entries and string tables, each
  in its own class and byte order.
* `written_contents_read_back` — a file is read back as what was written, and files that hold the
  same read alike.
-/

namespace Provenance.Elf

/-!
## Tables

The content of the first section of a type is the bytes of the records, one behind the other. The
table is read as these records, and each name of an entry is found in the strings of the section
that the table is linked to.
-/

/-- All bytes of some content are held at its start. -/
theorem holdsAt_zero {content : Bytes} {bs : List UInt8} (h : content.toList = bs) :
    content.HoldsAt 0 bs := by
  subst h
  refine ⟨?_, ?_⟩
  · rw [Array.length_toList]
    omega
  · rw [Array.length_toList, Nat.zero_add, Array.extract_size]

/-- The records of a table are read back from their bytes, each from its own place. -/
theorem readEntries_eq {α β : Type} {codec : Codec α} {records : List α} {bs : List UInt8}
    {content : Bytes} {read : Int → Except RecordError β} {f : α → β} (first : Nat)
    (hpos : 0 < codec.size) (hwrite : codec.writeAll? records = some bs)
    (hbytes : content.toList = bs)
    (hread : ∀ (place : Nat) (a : α), codec.HeldAt content place a → read place = .ok (f a)) :
    Image.readEntries first codec.size content read = .ok ((records.drop first).map f) := by
  -- the content is as long as the records, so that there are as many places as records
  have hsize : content.size / codec.size = records.length := by
    rw [← Array.length_toList, hbytes, Codec.length_of_writeAll? hwrite,
      Nat.mul_div_cancel _ hpos]
  unfold Image.readEntries
  rw [hsize, mapM_eq_ok_iff]
  apply List.ext_getElem?
  intro j
  rw [List.getElem?_map, List.getElem?_map, List.getElem?_map, List.getElem?_drop]
  by_cases hj : j < records.length - first
  · have hlt : first + j < records.length := by omega
    have hget := List.getElem?_eq_getElem hlt
    -- the record of this number stands at the place of this number
    have hheld := Codec.heldAt_of_writeAll? hwrite (holdsAt_zero hbytes) hget
    rw [Nat.zero_add] at hheld
    have hentry := hread _ _ hheld
    rw [List.getElem?_range' hj, hget, Nat.one_mul]
    simp only [Option.map_some]
    push_cast at hentry ⊢
    rw [hentry]
    rfl
  · have hnone : (List.range' first (records.length - first))[j]? = none :=
      List.getElem?_eq_none (by rw [List.length_range']; omega)
    rw [hnone, List.getElem?_eq_none (by omega)]
    rfl

theorem Symbol.size_pos (ident : Ident) : 0 < (Symbol.codec ident).size := by
  obtain ⟨fileClass, order, osAbi⟩ := ident
  cases fileClass <;> exact Nat.succ_pos _

theorem DynamicEntry.size_pos (ident : Ident) : 0 < (DynamicEntry.codec ident).size := by
  obtain ⟨fileClass, order, osAbi⟩ := ident
  cases fileClass <;> exact Nat.succ_pos _

/-- A symbol that is held at a place is read there. -/
theorem Symbol.decode_of_heldAt {ident : Ident} {data : Bytes} {place : Nat} {s : Symbol}
    (h : (Symbol.codec ident).HeldAt data place s) : Symbol.decode ident data place = .ok s := by
  have hexact : (Symbol.codec ident).Exact s := by
    unfold Symbol.codec
    split <;> trivial
  exact Codec.readOr_of_heldAt hexact h _ _

/-- A dynamic entry that is held at a place is read there. -/
theorem DynamicEntry.decode_of_heldAt {ident : Ident} {data : Bytes} {place : Nat}
    {d : DynamicEntry} (h : (DynamicEntry.codec ident).HeldAt data place d) :
    DynamicEntry.decode ident data place = .ok d := by
  have hexact : (DynamicEntry.codec ident).Exact d := trivial
  exact Codec.readOr_of_heldAt hexact h _ _

namespace Contents

section Tables

variable {c : Contents} {data : Bytes}

/-- The bytes of the string table that the first section of a type is linked to. -/
def linkedStrings (c : Contents) (data : Bytes) (type : Int) : Bytes :=
  match (c.headers.find? (·.type = type)).bind fun h => c.headers[h.link.toNat]? with
  | none => #[]
  | some strings => stringsOf data strings

/-- What the reader finds of a table that a file holds: its section, with the bytes of the records
as content, and the string table that it is linked to. -/
theorem HeldBy.table {α : Type} {type : Int} {codec : Codec α} {records : List α}
    (h : c.HeldBy data) (htable : c.HoldsTable data type codec records)
    (htype : type ≠ noBitsType) :
    ((c.image data).sectionOfType? type = none ∧ records = [])
      ∨ ∃ s bs content, (c.image data).sectionOfType? type = some s
          ∧ codec.writeAll? records = some bs
          ∧ (c.image data).content s = .ok content ∧ content.toList = bs
          ∧ (c.image data).linkedStrings s = .ok (c.linkedStrings data type) := by
  have hsection := sectionOfType?_header c data type
  unfold HoldsTable at htable
  cases hfind : c.headers.find? (·.type = type) with
  | none =>
    rw [hfind] at hsection htable
    exact .inl ⟨Option.map_eq_none_iff.mp hsection, htable⟩
  | some header =>
    simp only [hfind] at hsection htable
    obtain ⟨s, hs, rfl⟩ := Option.map_eq_some_iff.mp hsection
    obtain ⟨⟨bs, hwrite, hsize, hheld⟩, strings, hstrings, hstringType, hend⟩ := htable
    have hmem : s.header ∈ c.headers := List.mem_of_find?_eq_some hfind
    have hsType : s.header.type = type := by
      have hfound := List.find?_some hfind
      exact of_decide_eq_true hfound
    obtain ⟨-, hoffset, -, hlink⟩ := h.nonneg hmem
    obtain ⟨hroom, hbytes⟩ := hheld
    -- the section is in the file, since its records are
    have hcontent : (c.image data).content s = .ok (stringsOf data s.header) := by
      refine h.content_eq hmem (by rw [hsType]; exact htype) ?_
      unfold SectionHeader.endOffset
      omega
    -- the link leads to the string table, which is in the file as well
    have hstringsMem : strings ∈ c.headers := List.mem_of_getElem? hstrings
    have hlinked : (c.image data).linkedStrings s = .ok (stringsOf data strings) := by
      have hfound := section?_header c data hlink
      rw [Option.mem_def.mp hstrings] at hfound
      obtain ⟨t, ht, rfl⟩ := Option.map_eq_some_iff.mp hfound
      simp only [Image.linkedStrings, ht, if_pos hstringType]
      exact h.content_eq hstringsMem (by rw [hstringType]; decide) hend
    refine .inr ⟨s, bs, _, hs, hwrite, hcontent, ?_, ?_⟩
    · rw [stringsOf, hsize, Int.toNat_natCast]
      exact hbytes
    · rw [hlinked, linkedStrings, hfind, Option.bind_some, Option.mem_def.mp hstrings]

/-- The symbols are read back without the leading one, each with its name. -/
theorem HeldBy.symbols_eq (h : c.HeldBy data) :
    (c.image data).symbols = .ok (c.symbols.tail.map fun s =>
      ((c.linkedStrings data symbolTableType).cString s.name none, s)) := by
  unfold Image.symbols
  rcases h.table h.symbols (by decide) with
    ⟨hnone, hempty⟩ | ⟨s, bs, content, hsome, hwrite, hcontent, hbytes, hstrings⟩
  -- without a symbol table there are no symbols to write or to read
  · rw [hnone, hempty]
    rfl
  · simp only [hsome, hstrings, hcontent, bind, Except.bind]
    -- the table starts with an empty symbol, which the reader leaves out
    rw [← List.drop_one]
    refine readEntries_eq 1 (Symbol.size_pos c.ident) hwrite hbytes fun place a hheld => ?_
    have hdecode : Symbol.decode c.ident content place = .ok a := Symbol.decode_of_heldAt hheld
    simp only [image, hdecode]
    rfl

/-- The dynamic entries are read back up to the one that ends the table. -/
theorem HeldBy.dynamicEntries_eq (h : c.HeldBy data) :
    (c.image data).dynamicEntries = .ok (c.entries.takeWhile (·.tag ≠ DynamicEntry.endTag)) := by
  unfold Image.dynamicEntries
  rcases h.table h.entries (by decide) with
    ⟨hnone, hempty⟩ | ⟨s, bs, content, hsome, hwrite, hcontent, hbytes, -⟩
  · rw [hnone, hempty]
    rfl
  -- each entry is read from its place, and the table is cut at its end only then
  · have hentries : Image.readEntries 0 (DynamicEntry.codec c.ident).size content
        (DynamicEntry.decode c.ident content) = .ok ((c.entries.drop 0).map id) :=
      readEntries_eq 0 (DynamicEntry.size_pos c.ident) hwrite hbytes fun place a hheld =>
        DynamicEntry.decode_of_heldAt hheld
    rw [List.map_id, List.drop_zero] at hentries
    simp only [hsome, hcontent, bind, Except.bind]
    simp only [image, hentries]
    rfl

/-- The needed libraries are those of the dynamic entries, in order. -/
theorem HeldBy.importedLibraries_eq (h : c.HeldBy data) :
    (c.image data).importedLibraries
      = .ok (((c.entries.takeWhile (·.tag ≠ DynamicEntry.endTag)).filter
          (·.tag = DynamicEntry.neededTag)).map fun e =>
            (c.linkedStrings data dynamicType).cString e.value none) := by
  unfold Image.importedLibraries
  rcases h.table h.entries (by decide) with
    ⟨hnone, hempty⟩ | ⟨s, bs, content, hsome, -, -, -, hstrings⟩
  · rw [hnone, hempty]
    rfl
  -- the entries are read, and those that need a library are named from the strings
  · simp only [hsome, hstrings, h.dynamicEntries_eq, bind, Except.bind]
    rfl

/-- The sections have the names that stand in the table of names. -/
theorem HeldBy.sectionNames_eq (h : c.HeldBy data) :
    (c.image data).sectionNames = c.headers.map fun header =>
      match c.names? with
      | none => ""
      | some names => (stringsOf data names).cString header.name none := by
  have hnames : ∀ header ∈ c.headers,
      (match c.names? with
        | none => ""
        | some names => Image.sectionName data names header)
      = match c.names? with
        | none => ""
        | some names => (stringsOf data names).cString header.name none := by
    -- the name of one section, be there a table of names or not
    intro header hmem
    cases hfind : c.names? with
    | none => rfl
    | some names =>
      have hmem' : names ∈ c.headers := by
        unfold names? at hfind
        split at hfind
        next => cases hfind
        next => exact List.mem_of_getElem? hfind
      obtain ⟨hname, -, -, -⟩ := h.nonneg hmem
      obtain ⟨-, hoffset, hsize, -⟩ := h.nonneg hmem'
      -- the reader finds the name in place, with the end of the table as its bound
      have hstring := data.cString_extract names.offset.toNat names.size.toNat header.name.toNat
      rw [Int.toNat_of_nonneg hname, Int.toNat_of_nonneg hoffset, Int.toNat_of_nonneg hsize]
        at hstring
      exact hstring.symm
  rw [← List.map_congr_left hnames, Image.sectionNames, image, Image.nameSections, List.map_map]
  -- a section is named by its header alone, not by its number
  have hfirst := List.zipIdx_map_fst 0 c.headers
  rw [← hfirst, List.map_map, hfirst]
  rfl

end Tables

/-!
## Files that hold the same

Two files may differ in class, byte order and place of everything in them. They are alike when their
sections have the same names, types, links and strings, and then the same is found in both.
-/

/-- Two files hold the same sections as to name, type and link, the same symbols as to name, the
same dynamic entries, and string tables with the same bytes. -/
structure Alike (c : Contents) (data : Bytes) (c' : Contents) (data' : Bytes) : Prop where
  nameTableIndex : c.header.nameTableIndex = c'.header.nameTableIndex
  sections : c.headers.map (fun h => (h.name, h.type, h.link))
    = c'.headers.map fun h => (h.name, h.type, h.link)
  symbols : c.symbols.map (·.name) = c'.symbols.map (·.name)
  entries : c.entries = c'.entries
  strings : ∀ i (hi : i < c.headers.length) (hi' : i < c'.headers.length),
    c.headers[i].type = stringTableType →
      stringsOf data c.headers[i] = stringsOf data' c'.headers[i]

/-- Whether two files are alike can be computed. -/
instance (c : Contents) (data : Bytes) (c' : Contents) (data' : Bytes) :
    Decidable (c.Alike data c' data') :=
  decidable_of_iff (_ ∧ _ ∧ _ ∧ _ ∧ _)
    ⟨fun ⟨hindex, hsections, hsymbols, hentries, hstrings⟩ =>
        ⟨hindex, hsections, hsymbols, hentries, hstrings⟩,
      fun h => ⟨h.nameTableIndex, h.sections, h.symbols, h.entries, h.strings⟩⟩

section Alike

variable {c c' : Contents} {data data' : Bytes}

/-- Sections of the same number are both there or both missing, and have the same type and link. -/
theorem Alike.getElem? (h : c.Alike data c' data') (i : Nat) :
    (c.headers[i]? = none ∧ c'.headers[i]? = none)
      ∨ ∃ s s', c.headers[i]? = some s ∧ c'.headers[i]? = some s' ∧ s.name = s'.name
          ∧ s.type = s'.type ∧ s.link = s'.link
          ∧ (s.type = stringTableType → stringsOf data s = stringsOf data' s') := by
  -- the two lists are equal once the sections are cut down to what both files keep
  have hmap := congrArg (·[i]?) h.sections
  simp only [List.getElem?_map] at hmap
  cases hs : c.headers[i]? with
  | none =>
    rw [hs] at hmap
    exact .inl ⟨rfl, Option.map_eq_none_iff.mp hmap.symm⟩
  | some s =>
    rw [hs] at hmap
    obtain ⟨s', hs', heq⟩ := Option.map_eq_some_iff.mp hmap.symm
    obtain ⟨hname, htype, hlink⟩ : s'.name = s.name ∧ s'.type = s.type ∧ s'.link = s.link := by
      simpa using heq
    obtain ⟨hi, rfl⟩ := List.getElem?_eq_some_iff.mp hs
    obtain ⟨hi', rfl⟩ := List.getElem?_eq_some_iff.mp hs'
    exact .inr ⟨_, _, rfl, hs', hname.symm, htype.symm, hlink.symm, h.strings i hi hi'⟩

/-- The first sections of a type have the same link in both files. -/
theorem Alike.find? (h : c.Alike data c' data') (type : Int) :
    (c.headers.find? (·.type = type)).map (·.link)
      = (c'.headers.find? (·.type = type)).map (·.link) := by
  -- what is looked for is the type, and what is looked at is the link
  have hmap := congrArg (fun keys => (keys.find? fun key => key.2.1 = type).map fun key => key.2.2)
    h.sections
  simp only [List.find?_map, Option.map_map] at hmap
  exact hmap

/-- The tables of a type are linked to string tables with the same bytes. -/
theorem Alike.linkedStrings {α : Type} {type : Int} {codec : Codec α} {records : List α}
    (h : c.Alike data c' data')
    (htable : c.HoldsTable data type codec records) :
    c.linkedStrings data type = c'.linkedStrings data' type := by
  have hfind := h.find? type
  unfold HoldsTable at htable
  unfold Contents.linkedStrings
  cases hs : c.headers.find? (·.type = type) with
  | none =>
    rw [hs] at hfind
    rw [Option.map_eq_none_iff.mp hfind.symm]
    rfl
  | some s =>
    simp only [hs] at hfind htable
    obtain ⟨s', hs', hlink⟩ := Option.map_eq_some_iff.mp hfind.symm
    obtain ⟨-, strings, hstrings, htype, -⟩ := htable
    -- both links are the same number, and the sections of that number have the same bytes
    rw [hs', Option.bind_some, Option.bind_some, hlink]
    rcases h.getElem? s.link.toNat with ⟨hnone, -⟩ | ⟨t, t', ht, ht', -, -, -, hbytes⟩
    · cases hnone.symm.trans hstrings
    · cases ht.symm.trans hstrings
      rw [ht, ht']
      exact hbytes htype

/-- Alike files have the same section names. -/
theorem Alike.sectionNames (h : c.Alike data c' data') (hheld : c.HeldBy data)
    (hheld' : c'.HeldBy data') :
    (c.image data).sectionNames = (c'.image data').sectionNames := by
  rw [hheld.sectionNames_eq, hheld'.sectionNames_eq]
  apply List.ext_getElem?
  intro i
  rw [List.getElem?_map, List.getElem?_map]
  rcases h.getElem? i with ⟨hs, hs'⟩ | ⟨s, s', hs, hs', hname, -⟩
  · rw [hs, hs']
    rfl
  -- the names start at the same offset, so that only the tables they are in have to agree
  rw [hs, hs', Option.map_some, Option.map_some, hname]
  congr 1
  unfold names?
  rw [← h.nameTableIndex]
  by_cases hzero : c.header.nameTableIndex = 0
  · rw [if_pos hzero, if_pos hzero]
  · rw [if_neg hzero, if_neg hzero]
    -- the table of names is a string table, and so the same in both files
    obtain ⟨names, hnames, htype⟩ := hheld.nameTable.resolve_left hzero
    rcases h.getElem? c.header.nameTableIndex.toNat with
      ⟨hnone, -⟩ | ⟨t, t', ht, ht', -, -, -, hbytes⟩
    · cases hnone.symm.trans hnames
    · cases ht.symm.trans hnames
      rw [ht, ht']
      simp only [hbytes htype]

/-- Alike files have the same symbol names. -/
theorem Alike.symbolNames (h : c.Alike data c' data') (hheld : c.HeldBy data)
    (hheld' : c'.HeldBy data') :
    (c.image data).symbolNames = (c'.image data').symbolNames := by
  -- the names start at the same offsets of string tables with the same bytes
  have hnames := congrArg (fun names => names.tail.map fun name =>
    (c.linkedStrings data symbolTableType).cString name none) h.symbols
  simp only [← List.map_tail, List.map_map] at hnames
  rw [Image.symbolNames, Image.symbolNames, hheld.symbols_eq, hheld'.symbols_eq,
    ← h.linkedStrings hheld.symbols]
  simp only [Except.map, List.map_map]
  exact congrArg Except.ok hnames

/-- Alike files need the same libraries. -/
theorem Alike.importedLibraries (h : c.Alike data c' data') (hheld : c.HeldBy data)
    (hheld' : c'.HeldBy data') :
    (c.image data).importedLibraries = (c'.image data').importedLibraries := by
  rw [hheld.importedLibraries_eq, hheld'.importedLibraries_eq, h.entries,
    h.linkedStrings hheld.entries]

/-- A section is looked for by its name only, and nothing but its presence counts. -/
theorem hasGoBuildInfo_congr {img img' : Image} (h : img.sectionNames = img'.sectionNames) :
    img.hasGoBuildInfo = img'.hasGoBuildInfo := by
  have hfind : ∀ (img : Image) (name : String),
      (img.findSection? name).isSome = img.sectionNames.any (· = name) := by
    intro img name
    rw [Image.findSection?, Image.sectionNames, List.any_map, List.isSome_find?]
    rfl
  rw [Image.hasGoBuildInfo, Image.hasGoBuildInfo, hfind, hfind, h]

/-- The evidence in a file depends on the names of its sections, symbols and libraries alone. -/
theorem inspect_congr {img img' : Image} (hsections : img.sectionNames = img'.sectionNames)
    (hsymbols : img.symbolNames = img'.symbolNames)
    (hlibraries : img.importedLibraries = img'.importedLibraries) :
    img.inspect = img'.inspect := by
  -- the sections, the symbols and the libraries, one by one
  rw [Image.inspect, Image.inspect, hasGoBuildInfo_congr hsections, Image.inspectSymbols,
    Image.inspectSymbols, hsymbols, Image.inspectImports, Image.inspectImports, hlibraries]

end Alike

end Contents

/-- A file that holds contents is read, and gives back the header, the section headers, the symbols
but for the leading one and the dynamic entries up to the one that ends the table. So it does in
either class and either byte order: another file that holds the same names, entries and string
tables has the same section names, symbol names and libraries, and speaks for the same languages. -/
theorem written_contents_read_back {c : Contents} {data : Bytes} (h : c.HeldBy data) :
    (∃ img, Image.ofBytes data = .ok img ∧ img.header = c.header
        ∧ img.sections.map (·.header) = c.headers
        ∧ img.symbols.map (·.map (·.2)) = .ok c.symbols.tail
        ∧ img.dynamicEntries = .ok (c.entries.takeWhile (·.tag ≠ 0)))
      ∧ ∀ c' data', c'.HeldBy data' → c.Alike data c' data' →
          ∃ img img', Image.ofBytes data = .ok img ∧ Image.ofBytes data' = .ok img'
            ∧ img.sectionNames = img'.sectionNames ∧ img.symbolNames = img'.symbolNames
            ∧ img.importedLibraries = img'.importedLibraries ∧ inspect data = inspect data' := by
  refine ⟨⟨c.image data, h.ofBytes_eq, rfl, Contents.image_headers c data, ?_,
    h.dynamicEntries_eq⟩, ?_⟩
  · rw [h.symbols_eq]
    simp only [Except.map, List.map_map]
    exact congrArg Except.ok (List.map_id _)
  -- alike files agree in all three lists, and nothing else is inspected
  · intro c' data' h' hsame
    have hsections := hsame.sectionNames h h'
    have hsymbols := hsame.symbolNames h h'
    have hlibraries := hsame.importedLibraries h h'
    refine ⟨_, _, h.ofBytes_eq, h'.ofBytes_eq, hsections, hsymbols, hlibraries, ?_⟩
    rw [inspect, inspect, h.ofBytes_eq, h'.ofBytes_eq]
    exact Contents.inspect_congr hsections hsymbols hlibraries

/-- A symbol table, the string table that it and the section names are in, and a dynamic section. -/
def sampleContents (fileClass : FileClass) (order : ByteOrder) : Contents :=
  let ident : Ident := ⟨fileClass, order, 0⟩
  let headersPlace := (Header.codec ident).size
  let symbolsPlace := headersPlace + 3 * (SectionHeader.codec ident).size
  let symbolsSize := 2 * (Symbol.codec ident).size
  let entriesSize := 3 * (DynamicEntry.codec ident).size
  { fileClass := fileClass
    order := order
    header := {
      ident := [0x7F, 0x45, 0x4C, 0x46, UInt8.ofNat fileClass.code.toNat,
        UInt8.ofNat (encodingCode order).toNat, 1] ++ List.replicate 9 0
      type := 3, machine := 62, version := 1, entry := 0, programHeadersOffset := 0
      sectionHeadersOffset := headersPlace, flags := 0, headerSize := headersPlace
      programHeaderSize := 0, programHeaderCount := 0
      sectionHeaderSize := (SectionHeader.codec ident).size, sectionHeaderCount := 3
      nameTableIndex := 1 }
    headers := [
      ⟨1, symbolTableType, 0, 0, symbolsPlace, symbolsSize, 1, 0, 0, 0⟩,
      ⟨0, stringTableType, 0, 0, symbolsPlace + symbolsSize + entriesSize, 11, 0, 0, 0, 0⟩,
      ⟨6, dynamicType, 0, 0, symbolsPlace + symbolsSize, entriesSize, 1, 0, 0, 0⟩]
    symbols := [⟨0, 0, 0, 0, 0, 0⟩, ⟨1, 4096, 4, 18, 0, 1⟩]
    entries := [⟨1, 6⟩, ⟨0, 0⟩, ⟨-1, 7⟩] }

/-- The file that the sample is written to. -/
def sampleFile (fileClass : FileClass) (order : ByteOrder) : Bytes :=
  let c := sampleContents fileClass order
  let parts := [(Header.codec c.ident).write? c.header,
    (SectionHeader.codec c.ident).writeAll? c.headers,
    (Symbol.codec c.ident).writeAll? c.symbols,
    (DynamicEntry.codec c.ident).writeAll? c.entries]
  let strings := [0, 0x6D, 0x61, 0x69, 0x6E, 0, 0x6C, 0x69, 0x62, 0x63, 0]
  (parts.flatMap (Option.getD · []) ++ strings).toArray

/-- The sample is held by its file in the class of 32 bits, least significant byte first. -/
theorem sampleFile32_held :
    (sampleContents .class32 .little).HeldBy (sampleFile .class32 .little) := by
  decide +kernel

/-- The sample is held by its file in the class of 64 bits, most significant byte first. -/
theorem sampleFile64_held : (sampleContents .class64 .big).HeldBy (sampleFile .class64 .big) := by
  decide +kernel

/-- The two files of the sample are alike. -/
theorem sampleFiles_alike :
    (sampleContents .class32 .little).Alike (sampleFile .class32 .little)
      (sampleContents .class64 .big) (sampleFile .class64 .big) := by
  decide +kernel

/-- The two files of the sample are read back, and agree. -/
theorem sampleFiles_read_back :
    ∃ img img', Image.ofBytes (sampleFile .class32 .little) = .ok img
      ∧ Image.ofBytes (sampleFile .class64 .big) = .ok img'
      ∧ img.header = (sampleContents .class32 .little).header
      ∧ img.symbols.map (·.map (·.2)) = .ok [⟨1, 4096, 4, 18, 0, 1⟩]
      ∧ img.dynamicEntries = .ok [⟨1, 6⟩]
      ∧ img.symbolNames = img'.symbolNames ∧ img.importedLibraries = img'.importedLibraries := by
  obtain ⟨⟨img, hread, hheader, -, hsymbols, hentries⟩, hsame⟩ :=
    written_contents_read_back sampleFile32_held
  obtain ⟨img₁, img', hread₁, hread', -, hnames, hlibraries, -⟩ :=
    hsame _ _ sampleFile64_held sampleFiles_alike
  cases hread.symm.trans hread₁
  exact ⟨img, img', hread, hread', hheader, hsymbols, hentries, hnames, hlibraries⟩

end Provenance.Elf
