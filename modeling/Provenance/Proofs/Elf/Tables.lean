import Provenance.Proofs.Elf.RoundTrip
import Provenance.Proofs.Elf.SectionTable

/-!
# Tables of ELF files

What the symbol table and the dynamic section of a file list, told from the bytes at each place, and
when they are refused. The entries of a table stand one after the other, and a part of an entry at
the end counts for nothing.

* `FirstOfType`, `LinkedTo` — the section that a table is in, and the string table for its names.
* `symbolOf`, `entryOf`, `stringIn` — the entries of a table, and a string of a string table.
* `namedSymbols`, `neededNames` — what is listed. The first symbol is left out, and so is all that
  stands behind the first entry that ends a dynamic section; `takeWhile_range` tells the entries
  before it by their numbers.
* `ListedFrom` — a list is there exactly when its table is linked to a string table and both are in
  the file.
* `listedFrom_readTable` — this for any way of building a list from the bytes of the two sections.

Main result:

* `tables_listed_exactly_when_linked` — the symbols and the needed libraries of every ELF file.
-/

namespace Provenance.Elf

/-!
## Entries

What a table holds, told from the numbers at the places of its entries, and the names from the bytes
of the section of strings.
-/

/-- The number of bytes of a symbol. -/
def FileClass.symbolSize : FileClass → Nat
  | class32 => 16
  | class64 => 24

/-- The number of bytes of a dynamic entry. -/
def FileClass.entrySize : FileClass → Nat
  | class32 => 8
  | class64 => 16

section Entries

variable (data : Bytes) (fileClass : FileClass) (order : ByteOrder)

/-- The symbol at a place. With 32-bit addresses value and size stand before the small fields, with
64-bit addresses behind them. -/
def symbolAt (place : Nat) : Symbol :=
  let number := data.number order
  match fileClass with
  | .class32 =>
    { name := number place 4
      value := number (place + 4) 4
      size := number (place + 8) 4
      info := number (place + 12) 1
      other := number (place + 13) 1
      sectionIndex := number (place + 14) 2 }
  | .class64 =>
    { name := number place 4
      info := number (place + 4) 1
      other := number (place + 5) 1
      sectionIndex := number (place + 6) 2
      value := number (place + 8) 8
      size := number (place + 16) 8 }

/-- The dynamic entry at a place: a signed tag, and a value. -/
def entryAt (place : Nat) : DynamicEntry where
  tag := fileClass.signedAddress.ofNat (data.number order place fileClass.width)
  value := data.number order (place + fileClass.width) fileClass.width

/-- The symbol of a number in a section. -/
def symbolOf (s : Section) (i : Nat) : Symbol :=
  symbolAt data fileClass order (s.header.offset.toNat + i * fileClass.symbolSize)

/-- The dynamic entry of a number in a section. -/
def entryOf (s : Section) (i : Nat) : DynamicEntry :=
  entryAt data fileClass order (s.header.offset.toNat + i * fileClass.entrySize)

/-- The string at an offset of a section. It ends at the first NUL, or with the section. -/
def stringIn (t : Section) (offset : Int) : String :=
  asciiText ((data.extract (t.header.offset + offset).toNat
    (t.header.offset + t.header.size).toNat).toList.takeWhile (· ≠ 0))

/-- The symbols of a section but for the first one, each with its name. -/
def namedSymbols (s t : Section) : List (String × Symbol) :=
  (List.range' 1 (s.header.size.toNat / fileClass.symbolSize - 1)).map fun i =>
    (stringIn data t (symbolOf data fileClass order s i).name, symbolOf data fileClass order s i)

/-- The numbers of the entries for needed libraries before the first entry that ends the section. -/
def neededNumbers (s : Section) : List Nat :=
  (List.range (s.header.size.toNat / fileClass.entrySize)).filter fun i =>
    (entryOf data fileClass order s i).tag = 1
      ∧ ∀ j < i, (entryOf data fileClass order s j).tag ≠ 0

/-- The names of the needed libraries. -/
def neededNames (s t : Section) : List String :=
  (neededNumbers data fileClass order s).map fun i =>
    stringIn data t (entryOf data fileClass order s i).value

end Entries

/-! ## Sections -/

/-- A section is the first one of a type. -/
structure FirstOfType (img : Image) (type : Int) (s : Section) : Prop where
  hasType : s.header.type = type
  first : ∃ before after, img.sections = before ++ s :: after ∧ ∀ t ∈ before, t.header.type ≠ type

/-- A section is linked to a string table, and both are in the file as a whole. -/
structure LinkedTo (data : Bytes) (img : Image) (s t : Section) : Prop where
  mem : t ∈ img.sections
  link : s.header.link = t.index
  strings : t.header.type = 3
  stringsEnd : t.header.offset + t.header.size ≤ data.size
  tableEnd : s.header.offset + s.header.size ≤ data.size

/-- Whether a section is linked to a string table can be computed. -/
instance (data : Bytes) (img : Image) (s t : Section) : Decidable (LinkedTo data img s t) :=
  decidable_of_iff (_ ∧ _ ∧ _ ∧ _ ∧ _)
    ⟨fun ⟨hmem, hlink, hstrings, hstringsEnd, htableEnd⟩ =>
        ⟨hmem, hlink, hstrings, hstringsEnd, htableEnd⟩,
      fun h => ⟨h.mem, h.link, h.strings, h.stringsEnd, h.tableEnd⟩⟩

/-- A list is the one that the first section of a type gives, with the strings of the section that
it is linked to. It is empty if there is no section of the type, and refused if the section is not
linked to a string table or one of the two is not in the file. -/
structure ListedFrom {α : Type} (data : Bytes) (img : Image) (type : Int)
    (listed : Except ImageError (List α)) (entries : Section → Section → List α) : Prop where
  empty : (∀ s ∈ img.sections, s.header.type ≠ type) → listed = .ok []
  linked : ∀ s t, FirstOfType img type s → LinkedTo data img s t → listed = .ok (entries s t)
  unlinked : ∀ s, FirstOfType img type s → (∀ t, ¬ LinkedTo data img s t) →
    ∃ e, listed = .error e ∧ e.misread? = none

/-- The search for a type stops at the first section that has it. -/
theorem sectionOfType?_eq_some_iff {img : Image} {type : Int} {s : Section} :
    img.sectionOfType? type = some s ↔ FirstOfType img type s := by
  rw [Image.sectionOfType?, List.find?_eq_some_iff_append]
  constructor
  · rintro ⟨htype, before, after, hsplit, hbefore⟩
    refine ⟨of_decide_eq_true htype, before, after, hsplit, ?_⟩
    simpa using hbefore
  · rintro ⟨htype, before, after, hsplit, hbefore⟩
    refine ⟨decide_eq_true htype, before, after, hsplit, ?_⟩
    simpa using hbefore

theorem FirstOfType.mem {img : Image} {type : Int} {s : Section} (h : FirstOfType img type s) :
    s ∈ img.sections := by
  obtain ⟨before, after, hsplit, -⟩ := h.first
  rw [hsplit]
  exact List.mem_append_right _ List.mem_cons_self

section Image

variable {data : Bytes} {img : Image}

/-- A section stands in the table at its own number. -/
theorem index_of_getElem? (h : Image.ofBytes data = .ok img) {i : Nat} {s : Section}
    (hs : img.sections[i]? = some s) : s.index = i := by
  rw [(ofBytes_eq_ok_iff.mp h).2.2] at hs
  simp only [sectionsIn] at hs
  -- without a table there is no section, and in the table each has the number it was made for
  split at hs
  next => cases hs
  next =>
    rw [List.getElem?_map] at hs
    obtain ⟨j, hj, rfl⟩ := Option.map_eq_some_iff.mp hs
    obtain ⟨hi, hj⟩ := List.getElem?_eq_some_iff.mp hj
    rw [List.getElem_range hi] at hj
    exact hj.symm

/-- The words of a section header are natural numbers. -/
theorem nonneg_of_mem (h : Image.ofBytes data = .ok img) {s : Section} (hs : s ∈ img.sections) :
    0 ≤ s.header.offset ∧ 0 ≤ s.header.size ∧ 0 ≤ s.header.link := by
  rw [(ofBytes_eq_ok_iff.mp h).2.2] at hs
  simp only [sectionsIn] at hs
  split at hs
  next => cases hs
  next =>
    obtain ⟨i, -, rfl⟩ := List.mem_map.mp hs
    exact ⟨Int.natCast_nonneg _, Int.natCast_nonneg _, Int.natCast_nonneg _⟩

/-- A link leads to the section whose number it is. -/
theorem section?_link_eq_some_iff (h : Image.ofBytes data = .ok img) {s t : Section}
    (hs : s ∈ img.sections) :
    img.section? s.header.link = some t ↔ t ∈ img.sections ∧ s.header.link = t.index := by
  obtain ⟨-, -, hlink⟩ := nonneg_of_mem h hs
  rw [Image.section?, if_neg (Int.not_lt.mpr hlink)]
  -- the number of a section is its place in the list
  constructor
  · intro ht
    have hindex := index_of_getElem? h ht
    exact ⟨List.mem_of_getElem? ht, by omega⟩
  · rintro ⟨ht, hindex⟩
    obtain ⟨i, ht⟩ := List.getElem?_of_mem ht
    obtain rfl := index_of_getElem? h ht
    rw [hindex, Int.toNat_natCast, ht]

/-- The bytes of a section that are in the file. -/
def bytesOf (data : Bytes) (s : Section) : Bytes :=
  data.extract s.header.offset.toNat (s.header.offset.toNat + s.header.size.toNat)

/-- A section that takes room in the file has content exactly when all of it is in the file. -/
theorem content_eq_ok_iff_of_mem (h : Image.ofBytes data = .ok img) {s : Section}
    (hs : s ∈ img.sections) (htype : s.header.type ≠ noBitsType) {bs : Bytes} :
    img.content s = .ok bs ↔
      s.header.offset + s.header.size ≤ data.size ∧ bs = bytesOf data s := by
  obtain ⟨hoffset, hsize, -⟩ := nonneg_of_mem h hs
  rw [Image.content_eq_ok_iff htype hoffset hsize, data_of_ofBytes h]
  rfl

/-- The first section of a type has content exactly when all of it is in the file. -/
theorem FirstOfType.content_eq_ok_iff (h : Image.ofBytes data = .ok img) {type : Int} {s : Section}
    (hs : FirstOfType img type s) (htype : type ≠ noBitsType) {bs : Bytes} :
    img.content s = .ok bs ↔
      s.header.offset + s.header.size ≤ data.size ∧ bs = bytesOf data s := by
  refine content_eq_ok_iff_of_mem h hs.mem ?_
  rw [hs.hasType]
  exact htype

/-- The strings of a section are those of the string table that it is linked to. -/
theorem linkedStrings_eq_ok_iff (h : Image.ofBytes data = .ok img) {s : Section}
    (hs : s ∈ img.sections) {bs : Bytes} :
    img.linkedStrings s = .ok bs ↔
      ∃ t ∈ img.sections, s.header.link = t.index ∧ t.header.type = 3
        ∧ t.header.offset + t.header.size ≤ data.size ∧ bs = bytesOf data t := by
  have hbits : ∀ t : Section, t.header.type = 3 → t.header.type ≠ noBitsType := by
    intro t htype
    rw [htype]
    decide
  unfold Image.linkedStrings stringTableType
  constructor
  · intro hbytes
    split at hbytes
    -- the link leads nowhere, to a section of another type, or to a string table
    next => cases hbytes
    next t hlink =>
      by_cases htype : t.header.type = 3
      · rw [if_pos htype] at hbytes
        obtain ⟨ht, hindex⟩ := (section?_link_eq_some_iff h hs).mp hlink
        obtain ⟨hend, hbs⟩ := (content_eq_ok_iff_of_mem h ht (hbits t htype)).mp hbytes
        exact ⟨t, ht, hindex, htype, hend, hbs⟩
      · rw [if_neg htype] at hbytes
        cases hbytes
  · rintro ⟨t, ht, hindex, htype, hend, hbs⟩
    simp only [(section?_link_eq_some_iff h hs).mpr ⟨ht, hindex⟩]
    rw [if_pos htype]
    exact (content_eq_ok_iff_of_mem h ht (hbits t htype)).mpr ⟨hend, hbs⟩

/-!
## Lists from a table

Symbols and libraries are listed in the same way, from the first section of a type and the section
that it is linked to. One statement about this way serves both.
-/

/-- A list that is built from the strings and the bytes of the first section of a type. -/
def readTable {α : Type} (img : Image) (type : Int)
    (build : Bytes → Bytes → Except ImageError (List α)) : Except ImageError (List α) :=
  match img.sectionOfType? type with
  | none => .ok []
  | some s => do
    let strings ← img.linkedStrings s
    let content ← img.content s
    build strings content

/-- Such a list is empty, refused, or built from the first section and the one that it is linked to.
-/
theorem listedFrom_readTable {α : Type} (h : Image.ofBytes data = .ok img) {type : Int}
    (htype : type ≠ noBitsType) {build : Bytes → Bytes → Except ImageError (List α)}
    {entries : Section → Section → List α}
    (hbuild : ∀ s t, LinkedTo data img s t → s ∈ img.sections →
      build (bytesOf data t) (bytesOf data s) = .ok (entries s t)) :
    ListedFrom data img type (readTable img type build) entries where
  -- no section of the type is found
  empty := by
    intro hnone
    have hfind : img.sectionOfType? type = none := by
      rw [Image.sectionOfType?, List.find?_eq_none]
      simpa using hnone
    rw [readTable, hfind]
  -- strings and content are there, and the rest is the builder's
  linked := by
    intro s t hs hlinked
    have hstrings : img.linkedStrings s = .ok (bytesOf data t) :=
      (linkedStrings_eq_ok_iff h hs.mem).mpr
        ⟨t, hlinked.mem, hlinked.link, hlinked.strings, hlinked.stringsEnd, rfl⟩
    have hcontent : img.content s = .ok (bytesOf data s) :=
      (hs.content_eq_ok_iff h htype).mpr ⟨hlinked.tableEnd, rfl⟩
    rw [readTable, sectionOfType?_eq_some_iff.mpr hs]
    simp only [hstrings, hcontent, bind, Except.bind]
    exact hbuild s t hlinked hs.mem
  -- one of the two is refused, since the section would be linked to the strings otherwise
  unlinked := by
    intro s hs hunlinked
    rw [readTable, sectionOfType?_eq_some_iff.mpr hs]
    cases hstrings : img.linkedStrings s with
    | error e =>
      have hmisread := (Image.noRecord_of_linkedStrings hstrings).misread?
      exact ⟨e, bind_eq_error_iff.mpr (.inl hstrings), hmisread⟩
    | ok strings =>
      cases hcontent : img.content s with
      | error e =>
        have hmisread := (Image.noRecord_of_content hcontent).misread?
        have hfail : (img.content s >>= fun content => build strings content) = .error e :=
          bind_eq_error_iff.mpr (.inl hcontent)
        exact ⟨e, bind_eq_error_iff.mpr (.inr ⟨strings, hstrings, hfail⟩), hmisread⟩
      | ok content =>
        -- with both at hand, the section is linked to the one that the strings are from
        obtain ⟨t, ht, hlink, hstringType, hstringsEnd, -⟩ :=
          (linkedStrings_eq_ok_iff h hs.mem).mp hstrings
        obtain ⟨htableEnd, -⟩ := (hs.content_eq_ok_iff h htype).mp hcontent
        exact absurd ⟨ht, hlink, hstringType, hstringsEnd, htableEnd⟩ (hunlinked t)

/-! ## Entries of a table -/

theorem symbolCodec_size (ident : Ident) :
    (Symbol.codec ident).size = ident.fileClass.symbolSize := by
  obtain ⟨fileClass, order, osAbi⟩ := ident
  cases fileClass <;> rfl

theorem entryCodec_size (ident : Ident) :
    (DynamicEntry.codec ident).size = ident.fileClass.entrySize := by
  obtain ⟨fileClass, order, osAbi⟩ := ident
  cases fileClass <;> rfl

/-- The fields of a symbol are numbers, each at the place that its class gives it. -/
theorem recordAt_symbol (data : Bytes) (ident : Ident) (place : Nat) :
    (Symbol.codec ident).recordAt data place
      = symbolAt data ident.fileClass ident.order place := by
  obtain ⟨fileClass, order, osAbi⟩ := ident
  have hword : ∀ (w : Word) (size skipped : Nat), w.signed = false → skipped + w.width ≤ size →
      w.decode order (((data.extract place (place + size)).toList.drop skipped).take w.width)
        = data.number order (place + skipped) w.width :=
    fun w size skipped hunsigned hfits =>
      w.decode_drop_take order data place size skipped hunsigned hfits
  -- the classes differ in the order of the fields, not in their width alone
  cases fileClass with
  | class32 =>
    simp only [Codec.recordAt, Symbol.codec, Symbol.codec32, Layout.decode, List.drop_drop]
    unfold symbolAt
    rw [Symbol.mk.injEq]
    exact ⟨hword .u32 16 0 rfl (by decide), hword .u32 16 4 rfl (by decide),
      hword .u32 16 8 rfl (by decide), hword .u8 16 12 rfl (by decide),
      hword .u8 16 13 rfl (by decide), hword .u16 16 14 rfl (by decide)⟩
  | class64 =>
    simp only [Codec.recordAt, Symbol.codec, Symbol.codec64, Layout.decode, List.drop_drop]
    unfold symbolAt
    rw [Symbol.mk.injEq]
    exact ⟨hword .u32 24 0 rfl (by decide), hword .u64 24 8 rfl (by decide),
      hword .u64 24 16 rfl (by decide), hword .u8 24 4 rfl (by decide),
      hword .u8 24 5 rfl (by decide), hword .u16 24 6 rfl (by decide)⟩

/-- The tag of a dynamic entry is a signed number, and its value an unsigned one. -/
theorem recordAt_entry (data : Bytes) (ident : Ident) (place : Nat) :
    (DynamicEntry.codec ident).recordAt data place
      = entryAt data ident.fileClass ident.order place := by
  obtain ⟨fileClass, order, osAbi⟩ := ident
  simp only [Codec.recordAt, DynamicEntry.codec, Layout.decode]
  unfold entryAt
  rw [DynamicEntry.mk.injEq]
  cases fileClass with
  | class32 =>
    exact ⟨Word.decode_drop_take_ofNat .i32 order data place 8 0 (by decide),
      Word.decode_drop_take .u32 order data place 8 4 rfl (by decide)⟩
  | class64 =>
    exact ⟨Word.decode_drop_take_ofNat .i64 order data place 16 0 (by decide),
      Word.decode_drop_take .u64 order data place 16 8 rfl (by decide)⟩

/-- Every entry of a table is read from its own place in the file. -/
theorem readEntries_bytesOf {α β : Type} (codec : Codec α) (kind : RecordKind) {s : Section}
    (hoffset : 0 ≤ s.header.offset) (hsize : 0 ≤ s.header.size)
    (hend : s.header.offset + s.header.size ≤ data.size) (first : Nat)
    (f : α → β) :
    Image.readEntries first codec.size (bytesOf data s)
        (fun offset => (read codec kind (bytesOf data s) offset).map f)
      = .ok ((List.range' first (s.header.size.toNat / codec.size - first)).map fun i =>
          f (codec.recordAt data (s.header.offset.toNat + i * codec.size))) := by
  -- the content of the section is as long as the header says
  have hlength : (bytesOf data s).size = s.header.size.toNat := by
    rw [bytesOf, Array.size_extract]
    omega
  rw [Image.readEntries, hlength]
  apply mapM_eq_ok_of_forall
  intro i hi
  have hentry : i * codec.size + codec.size ≤ s.header.size.toNat := by
    have hrange := List.mem_range'_1.mp hi
    exact Image.entry_end_le (by omega)
  have hplace : ((i : Int) * (codec.size : Int)) = ((i * codec.size : Nat) : Int) := by
    push_cast
    rfl
  rw [hplace, read_natCast, hlength, if_pos hentry, bytesOf, codec.recordAt_extract data (by omega)]
  rfl

/-- A string is looked up in the bytes of its section. -/
theorem cString_bytesOf {t : Section} (hoffset : 0 ≤ t.header.offset) (hsize : 0 ≤ t.header.size)
    {offset : Int} (h : 0 ≤ offset) :
    (bytesOf data t).cString offset none = stringIn data t offset := by
  obtain ⟨start, hstart⟩ := Int.eq_ofNat_of_zero_le hoffset
  obtain ⟨size, hsize⟩ := Int.eq_ofNat_of_zero_le hsize
  obtain ⟨place, rfl⟩ := Int.eq_ofNat_of_zero_le h
  have hplace : ((start : Int) + place).toNat = start + place := by omega
  have hend : ((start : Int) + size).toNat = start + size := by omega
  have hstring := data.cString_extract start size place
  have hbound := data.cString_eq (start + place) (start + size)
  push_cast at hbound
  rw [hbound] at hstring
  rw [bytesOf, stringIn, hstart, hsize, hplace, hend]
  exact hstring

/-! ## Symbols and libraries -/

theorem symbol_name_nonneg (data : Bytes) (fileClass : FileClass) (order : ByteOrder)
    (s : Section) (i : Nat) : 0 ≤ (symbolOf data fileClass order s i).name := by
  unfold symbolOf symbolAt
  cases fileClass <;> exact Int.natCast_nonneg _

/-- The symbols are built entry by entry from the second on, each with its name in the strings. -/
theorem symbols_eq_readTable (img : Image) :
    img.symbols = readTable img 2 fun strings content =>
      Image.readEntries 1 (Symbol.codec img.ident).size content fun offset =>
        (read (Symbol.codec img.ident) .symbol content offset).map
          fun s => (strings.cString s.name none, s) := by
  unfold Image.symbols readTable symbolTableType
  rfl

/-- The symbols are listed from the first symbol table. -/
theorem listedFrom_symbols (h : Image.ofBytes data = .ok img) :
    ListedFrom data img 2 img.symbols
      (namedSymbols data img.ident.fileClass img.ident.order) := by
  rw [symbols_eq_readTable]
  refine listedFrom_readTable h (by decide) ?_
  intro s t hlinked hs
  obtain ⟨hoffset, hsize, -⟩ := nonneg_of_mem h hs
  obtain ⟨hoffset', hsize', -⟩ := nonneg_of_mem h hlinked.mem
  rw [readEntries_bytesOf (Symbol.codec img.ident) .symbol hoffset hsize hlinked.tableEnd]
  simp only [recordAt_symbol, symbolCodec_size]
  -- what is built from the bytes of the section is what stands in the file
  refine congrArg Except.ok (List.map_congr_left fun i _ => ?_)
  have hname := symbol_name_nonneg data img.ident.fileClass img.ident.order s i
  exact congrArg (·, _) (cString_bytesOf hoffset' hsize' hname)

/-- The first numbers up to one that a test fails on are those with no failure up to them. -/
theorem takeWhile_range (p : Nat → Bool) (n : Nat) :
    (List.range n).takeWhile p = (List.range n).filter fun i => ∀ j ≤ i, p j := by
  -- on the length of the range, the last number being the one that is added
  induction n with
  | zero => rfl
  | succ n ih =>
    have hwhole : (List.range n).takeWhile p = List.range n ↔ ∀ j < n, p j := by
      rw [ih, List.filter_eq_self]
      constructor
      · intro h j hj
        exact of_decide_eq_true (h j (List.mem_range.mpr hj)) j (Nat.le_refl j)
      · intro h i hi
        have hi := List.mem_range.mp hi
        exact decide_eq_true fun j hj => h j (by omega)
    rw [List.range_succ, List.takeWhile_append, List.filter_append, ← ih]
    by_cases hall : ∀ j < n, p j
    · -- nothing fails before the last number, so that it alone decides
      have hlast : (∀ j ≤ n, p j) ↔ p n := by
        constructor
        · exact fun h => h n (Nat.le_refl n)
        · intro h j hj
          rcases Nat.lt_or_eq_of_le hj with hlt | rfl
          · exact hall j hlt
          · exact h
      rw [hwhole.mpr hall, if_pos rfl]
      by_cases hp : p n <;> simp [hlast, hp]
    -- something has failed before, so that the last number is left out on both sides
    · have hlength : ((List.range n).takeWhile p).length ≠ (List.range n).length := by
        intro heq
        exact hall (hwhole.mp ((List.takeWhile_prefix p).eq_of_length heq))
      have hfails : ¬ ∀ j ≤ n, p j := fun h => hall fun j hj => h j (Nat.le_of_lt hj)
      rw [if_neg hlength, List.filter_cons_of_neg (by simpa using hfails), List.filter_nil,
        List.append_nil]

/-- The libraries are built from the entries before the end that need one. -/
theorem importedLibraries_eq_readTable (img : Image) :
    img.importedLibraries = readTable img 6 fun strings content =>
      (Image.readEntries 0 (DynamicEntry.codec img.ident).size content fun offset =>
        (read (DynamicEntry.codec img.ident) .dynamicEntry content offset).map id).map
          fun entries => ((entries.takeWhile (·.tag ≠ 0)).filter (·.tag = 1)).map
            fun e => strings.cString e.value none := by
  -- the entries are read from the section that has just been found
  unfold Image.importedLibraries Image.dynamicEntries readTable dynamicType
  cases img.sectionOfType? 6 with
  | none => rfl
  | some s =>
    cases hstrings : img.linkedStrings s with
    | error e =>
      simp only [hstrings]
      rfl
    | ok strings =>
      cases hcontent : img.content s with
      | error e =>
        simp only [hstrings, hcontent]
        rfl
      | ok content =>
        have hread : (fun offset => (read (DynamicEntry.codec img.ident) .dynamicEntry content
            offset).map id) = DynamicEntry.decode img.ident content :=
          funext fun offset => congrFun Except.map_id _
        simp only [hstrings, hcontent, hread, bind, Except.bind]
        cases Image.readEntries 0 (DynamicEntry.codec img.ident).size content
          (DynamicEntry.decode img.ident content) with
        | error e => rfl
        | ok entries => rfl

/-- The entries for needed libraries before the end are those of the needed numbers. -/
theorem filter_takeWhile_entryOf (data : Bytes) (fileClass : FileClass) (order : ByteOrder)
    (s : Section) :
    (((List.range (s.header.size.toNat / fileClass.entrySize)).map
        (entryOf data fileClass order s)).takeWhile (·.tag ≠ 0)).filter (·.tag = 1)
      = (neededNumbers data fileClass order s).map (entryOf data fileClass order s) := by
  rw [List.takeWhile_map, List.filter_map, takeWhile_range, List.filter_filter]
  refine congrArg _ (List.filter_congr fun i _ => ?_)
  -- an entry for a needed library is not one that ends the section
  have hiff : ((entryOf data fileClass order s i).tag = 1
        ∧ ∀ j ≤ i, (entryOf data fileClass order s j).tag ≠ 0)
      ↔ (entryOf data fileClass order s i).tag = 1
        ∧ ∀ j < i, (entryOf data fileClass order s j).tag ≠ 0 := by
    constructor
    · rintro ⟨hneeded, hbefore⟩
      exact ⟨hneeded, fun j hj => hbefore j (Nat.le_of_lt hj)⟩
    · rintro ⟨hneeded, hbefore⟩
      refine ⟨hneeded, fun j hj => ?_⟩
      rcases Nat.lt_or_eq_of_le hj with hlt | rfl
      · exact hbefore j hlt
      · rw [hneeded]
        decide
  rw [Bool.eq_iff_iff]
  simpa using hiff

/-- The libraries are listed from the first dynamic section. -/
theorem listedFrom_importedLibraries (h : Image.ofBytes data = .ok img) :
    ListedFrom data img 6 img.importedLibraries
      (neededNames data img.ident.fileClass img.ident.order) := by
  rw [importedLibraries_eq_readTable]
  refine listedFrom_readTable h (by decide) ?_
  intro s t hlinked hs
  obtain ⟨hoffset, hsize, -⟩ := nonneg_of_mem h hs
  obtain ⟨hoffset', hsize', -⟩ := nonneg_of_mem h hlinked.mem
  rw [readEntries_bytesOf (DynamicEntry.codec img.ident) .dynamicEntry hoffset hsize
    hlinked.tableEnd]
  simp only [recordAt_entry, entryCodec_size, Except.map, id, Nat.sub_zero, ← List.range_eq_range']
  -- entries are cut and picked by their tags, and the tags are told by the numbers of the entries
  have hneeded := filter_takeWhile_entryOf data img.ident.fileClass img.ident.order s
  unfold entryOf at hneeded
  rw [hneeded, List.map_map, neededNames]
  refine congrArg Except.ok (List.map_congr_left fun i _ => ?_)
  have hvalue : 0 ≤ (entryOf data img.ident.fileClass img.ident.order s i).value :=
    Int.natCast_nonneg _
  exact cString_bytesOf hoffset' hsize' hvalue

end Image

/-- **The symbols and the needed libraries of an ELF file.** The symbols are those of the first
section of type 2, from the second entry to the last whole one, and the libraries are told by the
dynamic entries of the first section of type 6. There are none without such a section, and the list
is refused exactly when the section is not linked to a string table or one of the two is not in the
file as a whole. -/
theorem tables_listed_exactly_when_linked {data : Bytes} {img : Image}
    (h : Image.ofBytes data = .ok img) :
    ListedFrom data img 2 img.symbols (namedSymbols data img.ident.fileClass img.ident.order)
      ∧ ListedFrom data img 6 img.importedLibraries
          (neededNames data img.ident.fileClass img.ident.order) :=
  ⟨listedFrom_symbols h, listedFrom_importedLibraries h⟩

/-- The sample has a symbol behind the empty one, and an entry for a library before the one that
ends its dynamic section. -/
theorem sampleFile64_listed :
    ∃ img, Image.ofBytes (sampleFile .class64 .big) = .ok img
      ∧ img.symbols = .ok [("main", ⟨1, 4096, 4, 18, 0, 1⟩)]
      ∧ img.importedLibraries = .ok ["libc"] := by
  have hread := sampleFile64_held.ofBytes_eq
  obtain ⟨hsymbols, hlibraries⟩ := tables_listed_exactly_when_linked hread
  generalize himg : (sampleContents .class64 .big).image (sampleFile .class64 .big) = img at *
  -- the two tables are there, and linked, and list what is computed here
  have hsymbolTable : ∃ s ∈ img.sections, ∃ t ∈ img.sections, img.sectionOfType? 2 = some s
      ∧ LinkedTo (sampleFile .class64 .big) img s t
      ∧ namedSymbols (sampleFile .class64 .big) img.ident.fileClass img.ident.order s t
          = [("main", ⟨1, 4096, 4, 18, 0, 1⟩)] := by
    subst himg
    decide +kernel
  have hdynamic : ∃ s ∈ img.sections, ∃ t ∈ img.sections, img.sectionOfType? 6 = some s
      ∧ LinkedTo (sampleFile .class64 .big) img s t
      ∧ neededNames (sampleFile .class64 .big) img.ident.fileClass img.ident.order s t
          = ["libc"] := by
    subst himg
    decide +kernel
  obtain ⟨s, -, t, -, hs, hst, hnamed⟩ := hsymbolTable
  obtain ⟨s', -, t', -, hs', hst', hneeded⟩ := hdynamic
  refine ⟨img, hread, ?_, ?_⟩
  · rw [hsymbols.linked s t (sectionOfType?_eq_some_iff.mp hs) hst, hnamed]
  · rw [hlibraries.linked s' t' (sectionOfType?_eq_some_iff.mp hs') hst', hneeded]

end Provenance.Elf
