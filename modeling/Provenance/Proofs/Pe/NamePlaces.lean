import Provenance.Proofs.Pe.Addresses
import Provenance.Proofs.Pe.Imports
import Provenance.Proofs.Strings

/-!
# Where the names of imports are read

The enumeration of the imports asks for one name after the other, each at an address. An address
that no section backs is refused, and nothing that was found before is kept. But how many bytes a
section has in the file is what its header says, and the file may be shorter: then an address can be
backed and yet lie behind the end of the file, and the name that is read there is empty.

* `ComesToLibrary`, `ComesToEntry`, `AsksFor` — the addresses that the enumeration asks for names:
  those it gets to, with all that it has to read before.
* `walkDescriptors_eq_error_iff`, `namesFrom_eq_nameUnmapped_iff` — a walk fails with what is wrong
  at the first entry that stops it.
* `imports_eq_nameUnmapped_iff` — a name is refused exactly if it is asked for and not backed.
* `name_found_iff_asked` — the names that are found are those that were asked for.
* `Image.Whole` — the file has all the bytes that the section headers tell.

Main result:

* `names_read_inside_whole_sections` — where names are read, and which are refused.
-/

namespace Provenance.Pe

variable {img : Image}

/-! ## What is asked for -/

/-- The enumeration comes to a descriptor: it has read all that those in front of it import. -/
def ComesToLibrary (img : Image) (d : ImportDescriptor) : Prop :=
  ∃ address table, tableAddress? img = some address ∧ img.Mapped address table
    ∧ ComesTo (descriptorsFrom img.data table)
        (fun d => d.IsTerminator ∨ ∀ found, ¬ Describes img d found) 4096 d
    ∧ ¬ d.IsTerminator

/-- An entry imports by name, and the name is not in the file. -/
def LacksName (img : Image) (entry : Nat) : Prop :=
  hasName img entry = true ∧ Unmapped img (nameAddress entry)

/-- The enumeration comes to an entry of the lookup table at an address: it has read the names of
those in front of it. -/
def ComesToEntry (img : Image) (address : Int) (entry : Nat) : Prop :=
  ∃ table, img.Mapped address table
    ∧ ComesTo (entriesFrom img table) (fun entry => entry = 0 ∨ LacksName img entry) 65536 entry
    ∧ entry ≠ 0

/-- The enumeration asks for the name at an address. -/
inductive AsksFor (img : Image) : Int → Prop
  /-- The name of a library. -/
  | library {d : ImportDescriptor} (h : ComesToLibrary img d) : AsksFor img d.name
  /-- The name of a function, once the name of its library has been read. -/
  | function {d : ImportDescriptor} {entry : Nat} (h : ComesToLibrary img d)
      (hlibrary : ¬ Unmapped img d.name) (hentry : ComesToEntry img d.namesTable entry)
      (hname : hasName img entry = true) : AsksFor img (nameAddress entry)

/-!
## Walks that fail

The walk is refused for the address of a name exactly when it comes to a place that asks for this
name and no section has it in the file.
-/

/-- A string is refused exactly where its address lies nowhere in the file. -/
theorem stringAt_eq_error_iff (hparsed : img.Parsed) {address : Int} {e : ImportError} :
    img.stringAt address = .error e ↔ Unmapped img address ∧ e = .nameUnmapped address := by
  unfold Image.stringAt
  cases hoffset : img.fileOffset? address with
  | none => simp [Unmapped, (Image.fileOffset?_eq_none_iff hparsed).mp hoffset, eq_comm]
  | some offset =>
    obtain ⟨place, -, hmapped⟩ := Image.exists_mapped_of_fileOffset? hparsed hoffset
    simp only [reduceCtorEq, false_iff]
    exact fun h => h.1 place hmapped

/-- An address has a place exactly when a name stands there. -/
theorem not_unmapped_iff {address : Int} :
    ¬ Unmapped img address ↔ ∃ name, NameAt img address name := by
  simp [Unmapped, NameAt]

/-- A walk over the descriptors fails with what is wrong with the first one that cannot be read,
unless that one is not there at all. -/
theorem walkDescriptors_eq_error_iff {α : Type} {read : ImportDescriptor → Except ImportError α}
    {limit table : Nat} {e : ImportError} (he : ∀ r, e ≠ .descriptor r) :
    img.walkDescriptors read limit table = .error e ↔
      ∃ d, ComesTo (descriptorsFrom img.data table)
          (fun d => d.IsTerminator ∨ ∀ a, read d ≠ .ok a) limit d
        ∧ ¬ d.IsTerminator ∧ read d = .error e := by
  -- each step is one of the walk, and one of what the walk comes to
  induction limit generalizing table with
  | zero => simp [Image.walkDescriptors, not_comesTo_zero]
  | succ limit ih =>
    rw [walkDescriptors_succ]
    cases hd : descriptorAt? img.data table with
    | none =>
      -- a descriptor that is missing is refused for another reason
      have hnone : ∀ d, ¬ ComesTo (descriptorsFrom img.data table)
          (fun d => d.IsTerminator ∨ ∀ a, read d ≠ .ok a) (limit + 1) d :=
        fun d => not_comesTo_of_missing hd
      simp [hnone, (he _).symm]
    | some d =>
      have hfrom : descriptorsFrom img.data table 0 = some d := hd
      simp only [comesTo_succ_iff hfrom, descriptorsFrom_succ, or_and_right, exists_or,
        exists_eq_left]
      by_cases hend : d.IsTerminator
      · simp [hend]
      · rw [if_neg hend, bind_eq_error_iff]
        cases hread : read d with
        | error e' => simp [hend]
        | ok first =>
          -- what is wrong is wrong with a descriptor behind this one
          have hrest : List.cons first <$> img.walkDescriptors read limit (table + 20 : Nat)
              = .error e ↔ img.walkDescriptors read limit (table + 20 : Nat) = .error e :=
            map_eq_error_iff
          simpa [hend, ← ih] using hrest

/-- A walk over a lookup table fails for want of a name exactly if it comes to an entry whose name
is not in the file. -/
theorem namesFrom_eq_nameUnmapped_iff (hparsed : img.Parsed) {limit table : Nat}
    {done : List String} {address : Int} :
    img.namesFrom limit table done = .error (.nameUnmapped address) ↔
      ∃ entry, ComesTo (entriesFrom img table) (fun entry => entry = 0 ∨ LacksName img entry) limit
          entry
        ∧ entry ≠ 0 ∧ LacksName img entry ∧ (nameAddress entry : Int) = address := by
  -- an entry of zero, one with a name that is there or is not, and one by ordinal
  induction limit generalizing table done with
  | zero => simp [Image.namesFrom, not_comesTo_zero]
  | succ limit ih =>
    rw [namesFrom_succ]
    cases hentry : entryAt? img table with
    | none =>
      have hnone : ∀ entry, ¬ ComesTo (entriesFrom img table)
          (fun entry => entry = 0 ∨ LacksName img entry) (limit + 1) entry :=
        fun entry => not_comesTo_of_missing hentry
      simp [hnone]
    | some entry =>
      have hfrom : entriesFrom img table 0 = some entry := hentry
      simp only [comesTo_succ_iff hfrom, entriesFrom_succ, or_and_right, exists_or, exists_eq_left]
      by_cases hzero : entry = 0
      · simp [hzero]
      by_cases hname : hasName img entry = true
      · cases hstring : img.stringAt (nameAddress entry) with
        | error e =>
          -- the walk ends here, and nothing behind the entry is looked at
          obtain ⟨hunmapped, rfl⟩ := (stringAt_eq_error_iff hparsed).mp hstring
          simp [hzero, hname, LacksName, hunmapped]
        | ok name =>
          have hmapped : ¬ Unmapped img (nameAddress entry) := by
            intro h
            cases hstring.symm.trans ((stringAt_eq_error_iff hparsed).mpr ⟨h, rfl⟩)
          have hlacks : ¬ LacksName img entry := fun h => hmapped h.2
          simp only [if_neg hzero, if_pos hname]
          rw [ih]
          simp [hzero, hlacks]
      · have hlacks : ¬ LacksName img entry := fun h => hname h.1
        rw [if_neg hzero, if_neg hname, ih]
        simp [hzero, hlacks]

/-- The functions are refused for want of a name exactly if a listed entry lacks its name. -/
theorem functionNames_eq_nameUnmapped_iff (hparsed : img.Parsed) {d : ImportDescriptor}
    {address : Int} :
    img.functionNames d = .error (.nameUnmapped address) ↔
      ∃ entry, ComesToEntry img d.namesTable entry ∧ LacksName img entry
        ∧ (nameAddress entry : Int) = address := by
  unfold Image.functionNames
  cases hoffset : img.fileOffset? d.namesTable with
  | none =>
    have hunmapped := (Image.fileOffset?_eq_none_iff hparsed).mp hoffset
    simp [ComesToEntry, hunmapped]
  | some offset =>
    obtain ⟨table, rfl, hmapped⟩ := Image.exists_mapped_of_fileOffset? hparsed hoffset
    simp only [namesFrom_eq_nameUnmapped_iff hparsed]
    constructor
    · rintro ⟨entry, hcomes, hgo, hrest⟩
      exact ⟨entry, ⟨table, hmapped, hcomes, hgo⟩, hrest⟩
    · -- the address of the lookup table has one place only
      rintro ⟨entry, ⟨table', hmapped', hcomes, hgo⟩, hrest⟩
      cases hmapped.unique hmapped'
      exact ⟨entry, hcomes, hgo, hrest⟩

/-- What a descriptor imports cannot be read for want of a name exactly if its own name or the name
of one of its functions is not in the file. -/
theorem readImport_eq_nameUnmapped_iff {d : ImportDescriptor} (hparsed : img.Parsed)
    {address : Int} :
    readImport img d = .error (.nameUnmapped address) ↔
      (Unmapped img d.name ∧ d.name = address)
        ∨ (¬ Unmapped img d.name ∧ img.functionNames d = .error (.nameUnmapped address)) := by
  unfold readImport
  rw [bind_eq_error_iff, stringAt_eq_error_iff hparsed]
  -- either the library has no name, or its name was read and a function has none
  refine or_congr ?_ ⟨?_, ?_⟩
  · simp [eq_comm]
  · rintro ⟨library, hlibrary, h⟩
    refine ⟨not_unmapped_iff.mpr ⟨library, (stringAt_eq_ok_iff hparsed).mp hlibrary⟩, ?_⟩
    rcases bind_eq_error_iff.mp h with h | ⟨_, -, h⟩
    · exact h
    · cases h
  · rintro ⟨hmapped, h⟩
    obtain ⟨library, hlibrary⟩ := not_unmapped_iff.mp hmapped
    exact ⟨library, (stringAt_eq_ok_iff hparsed).mpr hlibrary, bind_eq_error_iff.mpr (.inl h)⟩

/-- **The enumeration refuses a name** exactly if it asks for it and no section backs its address.
-/
theorem imports_eq_nameUnmapped_iff (hparsed : img.Parsed) {address : Int} :
    img.imports = .error (.nameUnmapped address) ↔ AsksFor img address ∧ Unmapped img address := by
  -- the walk that fails is the one over the descriptors, at the first that cannot be read
  have hwalk : img.imports = .error (.nameUnmapped address) ↔
      ∃ d, ComesToLibrary img d ∧ readImport img d = .error (.nameUnmapped address) := by
    rw [imports_eq]
    cases haddress : tableAddress? img with
    | none => simp [ComesToLibrary, haddress]
    | some start =>
      cases hoffset : img.fileOffset? start with
      | none =>
        have hunmapped := (Image.fileOffset?_eq_none_iff hparsed).mp hoffset
        simp [ComesToLibrary, haddress, hoffset, hunmapped]
      | some offset =>
        obtain ⟨table, rfl, hmapped⟩ := Image.exists_mapped_of_fileOffset? hparsed hoffset
        have hplace : ∀ table', img.Mapped start table' ↔ table' = table :=
          fun table' => ⟨fun h => h.unique hmapped, fun h => h ▸ hmapped⟩
        -- a descriptor stops the walk if what it imports cannot be told
        have hstops : ∀ d, (∀ a, readImport img d ≠ .ok a) ↔ ∀ found, ¬ Describes img d found := by
          intro d
          simp only [ne_eq, readImport_eq_ok_iff hparsed]
        simp only [hoffset, ComesToLibrary, haddress, Option.some.injEq, exists_and_left,
          exists_eq_left', hplace]
        rw [walkDescriptors_eq_error_iff (by simp)]
        simp only [hstops, exists_eq_left, and_assoc]
  rw [hwalk]
  constructor
  · rintro ⟨d, hd, h⟩
    rcases (readImport_eq_nameUnmapped_iff hparsed).mp h with ⟨hunmapped, rfl⟩ | ⟨hmapped, h⟩
    · exact ⟨.library hd, hunmapped⟩
    · obtain ⟨entry, hentry, ⟨hname, hunmapped⟩, rfl⟩ :=
        (functionNames_eq_nameUnmapped_iff hparsed).mp h
      exact ⟨.function hd hmapped hentry hname, hunmapped⟩
  · rintro ⟨hasks, hunmapped⟩
    cases hasks with
    | @library d hd =>
      exact ⟨d, hd, (readImport_eq_nameUnmapped_iff hparsed).mpr (.inl ⟨hunmapped, rfl⟩)⟩
    | @function d entry hd hmapped hentry hname =>
      have hlookup := (functionNames_eq_nameUnmapped_iff hparsed).mpr
        ⟨entry, hentry, ⟨hname, hunmapped⟩, rfl⟩
      exact ⟨d, hd, (readImport_eq_nameUnmapped_iff hparsed).mpr (.inr ⟨hmapped, hlookup⟩)⟩

/-! ## Names that are found -/

/-- An address has one name. -/
theorem NameAt.unique {address : Int} {name name' : String} (h : NameAt img address name)
    (h' : NameAt img address name') : name = name' := by
  obtain ⟨place, hmapped, rfl⟩ := h
  obtain ⟨place', hmapped', rfl⟩ := h'
  rw [hmapped.unique hmapped']

/-- The functions of a lookup table have the names of the entries that the enumeration comes to. -/
theorem FunctionsAt.mem_iff {address : Int} {functions : List String}
    (h : FunctionsAt img address functions) {name : String} :
    name ∈ functions ↔
      ∃ entry, ComesToEntry img address entry ∧ hasName img entry = true
        ∧ NameAt img (nameAddress entry) name := by
  obtain ⟨table, entries, hmapped, hlisted, hnames⟩ := h
  -- no listed entry stops the walk, for each has a name where it needs one
  have hgo : ∀ entry ∈ entries, ¬ LacksName img entry := by
    rintro entry hentry ⟨hname, hunmapped⟩
    obtain ⟨name, hfound⟩ :=
      exists_of_forall₂_of_mem hnames (List.mem_filter.mpr ⟨hentry, hname⟩)
    exact not_unmapped_iff.mpr ⟨name, hfound⟩ hunmapped
  have hcomes : ∀ entry, ComesToEntry img address entry ↔ entry ∈ entries := by
    intro entry
    rw [← comesTo_iff_of_listed hlisted hgo]
    constructor
    · rintro ⟨table', hmapped', hcomes⟩
      cases hmapped.unique hmapped'
      exact hcomes
    · intro hcomes
      exact ⟨table, hmapped, hcomes⟩
  have hfound := exists_mem_iff_of_forall₂ hnames
    (P := fun entry => NameAt img (nameAddress entry) name) (Q := fun found => found = name)
    fun entry found h => ⟨h.unique, fun heq => heq ▸ h⟩
  simp only [exists_eq_right, List.mem_filter] at hfound
  simp only [hcomes, ← hfound, and_assoc]

/-- The names that a descriptor stands for. -/
theorem Describes.name_iff {d : ImportDescriptor} {i : Import} (h : Describes img d i)
    {name : String} :
    (name = i.library ∨ name ∈ i.functions) ↔
      NameAt img d.name name ∨ ∃ entry, ComesToEntry img d.namesTable entry
        ∧ hasName img entry = true ∧ NameAt img (nameAddress entry) name := by
  -- the name of the library is the one of its descriptor, and no other stands at that address
  refine or_congr ⟨fun heq => heq ▸ h.library, fun hname => ?_⟩ h.functions.mem_iff
  exact hname.unique h.library

/-- The libraries that are found are those of the descriptors that the enumeration comes to. -/
theorem ImportTable.exists_iff {found : List Import} (h : ImportTable img found)
    {P : ImportDescriptor → Prop} {Q : Import → Prop}
    (hiff : ∀ d i, Describes img d i → (P d ↔ Q i)) :
    (∃ i ∈ found, Q i) ↔ ∃ d, ComesToLibrary img d ∧ P d := by
  cases h with
  | absent haddress => simp [ComesToLibrary, haddress]
  | @present address table descriptors found haddress hmapped hlisted hdescribed =>
    have hgo : ∀ d ∈ descriptors, ¬ ∀ i, ¬ Describes img d i := by
      intro d hd hnone
      obtain ⟨i, hi⟩ := exists_of_forall₂_of_mem hdescribed hd
      exact hnone i hi
    -- no listed descriptor stops the walk, since all of them were read
    have hcomes : ∀ d, ComesToLibrary img d ↔ d ∈ descriptors := by
      intro d
      rw [← comesTo_iff_of_listed hlisted hgo]
      constructor
      · rintro ⟨address', table', haddress', hmapped', hcomes⟩
        cases haddress.symm.trans haddress'
        cases hmapped.unique hmapped'
        exact hcomes
      · intro hcomes
        exact ⟨address, table, haddress, hmapped, hcomes⟩
    rw [← exists_mem_iff_of_forall₂ hdescribed hiff]
    simp only [hcomes]

/-- A name is asked for as that of a library, or as that of a function behind the library's. -/
theorem asksFor_and_iff {name : String} :
    (∃ address, AsksFor img address ∧ NameAt img address name) ↔
      ∃ d, ComesToLibrary img d ∧ (NameAt img d.name name ∨ (¬ Unmapped img d.name
        ∧ ∃ entry, ComesToEntry img d.namesTable entry ∧ hasName img entry = true
          ∧ NameAt img (nameAddress entry) name)) := by
  constructor
  · rintro ⟨_, hasks, hname⟩
    -- an address is asked for as that of a library or as that of a function
    cases hasks with
    | @library d hd => exact ⟨d, hd, .inl hname⟩
    | @function d entry hd hmapped hentry hhas =>
      exact ⟨d, hd, .inr ⟨hmapped, entry, hentry, hhas, hname⟩⟩
  · rintro ⟨d, hd, hname | ⟨hmapped, entry, hentry, hhas, hname⟩⟩
    · exact ⟨d.name, .library hd, hname⟩
    · exact ⟨nameAddress entry, .function hd hmapped hentry hhas, hname⟩

/-- **The names that are found are those that were asked for**, each read at its address. -/
theorem name_found_iff_asked {found : List Import} (h : ImportTable img found) {name : String} :
    (∃ i ∈ found, name = i.library ∨ name ∈ i.functions) ↔
      ∃ address, AsksFor img address ∧ NameAt img address name := by
  rw [asksFor_and_iff]
  refine h.exists_iff fun d i hdescribes => ?_
  -- the library of a descriptor has a name, so that its functions are asked for too
  have hmapped : ¬ Unmapped img d.name := not_unmapped_iff.mpr ⟨_, hdescribes.library⟩
  simp only [hmapped, not_false_eq_true, true_and]
  exact hdescribes.name_iff.symm

/-!
## The end of the file

A section may say that it has more raw data than the file goes on for. A name in a section that is
whole lies in the file; in another one the end of the file may cut it off.
-/

/-- The file has all the bytes that the section headers tell. -/
def Image.Whole (img : Image) : Prop :=
  ∀ s ∈ img.sections, 0 < s.header.rawSize → s.header.rawOffset + s.header.rawSize ≤ img.data.size

instance (img : Image) : Decidable img.Whole := by
  unfold Image.Whole
  infer_instance

/-- An address that has a place is backed by a section that reaches beyond that place. -/
theorem Image.Mapped.exists_backs {address : Int} {place : Nat} (h : img.Mapped address place) :
    ∃ s ∈ img.sections, s.header.Backs address ∧ 0 < s.header.rawSize
      ∧ (place : Int) < s.header.rawOffset + s.header.rawSize := by
  obtain ⟨before, s, after, heq, hholds, -, hraw, hplace⟩ := h
  have hmem : s ∈ img.sections := by simp [heq]
  have hstart : s.header.virtualAddress ≤ address := hholds.1
  exact ⟨s, hmem, ⟨hholds, hraw⟩, by omega, by omega⟩

/-- In a whole file no name is read behind the end. -/
theorem Image.Mapped.lt_size {address : Int} {place : Nat} (h : img.Mapped address place)
    (hwhole : img.Whole) : place < img.data.size := by
  obtain ⟨s, hs, -, hpos, hplace⟩ := h.exists_backs
  have hend := hwhole s hs hpos
  omega

/-- A name is refused exactly if it is asked for at an address that no section backs. If the
enumeration goes through, the names that it finds are those it asked for; each address has a place,
and a place behind the end of the file, where the name is empty, belongs to a section that has more
bytes by its header than by the file. Where the file has all bytes of the sections, no name that is
found was read outside of it, and what it does not hold is refused. -/
theorem names_read_inside_whole_sections {data : Bytes} {img : Image}
    (h : Image.ofBytes data = .ok img) :
    (∀ address, img.imports = .error (.nameUnmapped address) ↔
        AsksFor img address ∧ Unmapped img address)
      ∧ (∀ found, img.imports = .ok found →
          (∀ name, (∃ i ∈ found, name = i.library ∨ name ∈ i.functions) ↔
            ∃ address, AsksFor img address ∧ NameAt img address name)
          ∧ ∀ address, AsksFor img address → ∃ place, img.Mapped address place
            ∧ (data.size ≤ place → NameAt img address ""
              ∧ ∃ s ∈ img.sections, s.header.Backs address
                ∧ data.size < s.header.rawOffset + s.header.rawSize))
      ∧ (img.Whole →
          (∀ found, img.imports = .ok found → ∀ i ∈ found, ∀ name,
            name = i.library ∨ name ∈ i.functions →
              ∃ address, ∃ place < data.size, AsksFor img address ∧ img.Mapped address place
                ∧ name = data.cString place none)
          ∧ ∀ address, AsksFor img address → (∀ place < data.size, ¬ img.Mapped address place) →
              img.imports = .error (.nameUnmapped address)) := by
  -- what is refused is told for every image, and the rest for one whose imports were read
  obtain ⟨rfl, hparsed, -⟩ := Image.parsed_of_ofBytes h
  have hrefused : ∀ address, img.imports = .error (.nameUnmapped address) ↔
      AsksFor img address ∧ Unmapped img address := fun _ => imports_eq_nameUnmapped_iff hparsed
  refine ⟨hrefused, ?_, ?_⟩
  · intro found hfound
    have htable := (imports_eq_ok_iff hparsed).mp hfound
    refine ⟨fun name => name_found_iff_asked htable, fun address hasks => ?_⟩
    -- an address without a place would have been refused
    have hmapped : ¬ Unmapped img address := by
      intro hunmapped
      cases hfound.symm.trans ((hrefused address).mpr ⟨hasks, hunmapped⟩)
    obtain ⟨name, place, hplace, -⟩ := not_unmapped_iff.mp hmapped
    refine ⟨place, hplace, fun hend => ⟨⟨place, hplace, ?_⟩, ?_⟩⟩
    · exact (img.data.cString_outside (.inr (Int.ofNat_le.mpr hend))).symm
    obtain ⟨s, hs, hbacks, -, hlt⟩ := hplace.exists_backs
    exact ⟨s, hs, hbacks, by omega⟩
  · intro hwhole
    constructor
    · intro found hfound i hi name hname
      have htable := (imports_eq_ok_iff hparsed).mp hfound
      obtain ⟨address, hasks, place, hplace, rfl⟩ :=
        (name_found_iff_asked htable).mp ⟨i, hi, hname⟩
      exact ⟨address, place, hplace.lt_size hwhole, hasks, hplace, rfl⟩
    · intro address hasks hnone
      refine (hrefused address).mpr ⟨hasks, fun place hplace => ?_⟩
      exact hnone place (hplace.lt_size hwhole) hplace

/-- The section of `smallImage` ends with the file, and both names are read in it. -/
theorem smallImage_names_inside :
    ∃ img, Image.ofBytes smallImage = .ok img ∧ img.Whole ∧ img.imports = .ok [⟨"a", ["f"]⟩]
      ∧ ∀ name ∈ ["a", "f"], ∃ address, ∃ place < 298, AsksFor img address
        ∧ img.Mapped address place ∧ name = smallImage.cString place none := by
  obtain ⟨img, hread, h⟩ := exists_ok_of_any (x := Image.ofBytes smallImage)
    (p := fun img => decide (img.Whole ∧ img.imports.toOption = some [⟨"a", ["f"]⟩]))
    (by decide +kernel)
  obtain ⟨hwhole, himports⟩ := of_decide_eq_true h
  have hfound := eq_ok_of_toOption himports
  -- both names are asked for at places in front of the end of the file
  have hsize : smallImage.size = 298 := by decide +kernel
  obtain ⟨-, -, hinside⟩ := names_read_inside_whole_sections hread
  refine ⟨img, hread, hwhole, hfound, fun name hname => ?_⟩
  rw [← hsize]
  refine (hinside hwhole).1 _ hfound _ (List.mem_singleton_self _) name ?_
  simpa using hname

/-- The image without its last two bytes, the name of the library and the NUL behind it. -/
def cutImage : Bytes := (smallImage.toList.take 296).toArray

/-- What is left is an image. The name of the library would start where the file ends, and is found
to be empty. -/
theorem cutImage_empty_name :
    ∃ img, Image.ofBytes cutImage = .ok img ∧ AsksFor img 296
      ∧ (∀ place < 296, ¬ img.Mapped 296 place) ∧ img.imports = .ok [⟨"", ["f"]⟩] := by
  obtain ⟨img, hread, h⟩ := exists_ok_of_any (x := Image.ofBytes cutImage)
    (p := fun img => decide (img.imports.toOption = some [⟨"", ["f"]⟩]
      ∧ img.fileOffset? 296 = some (296 : Nat) ∧ tableAddress? img = some 240
      ∧ img.fileOffset? 240 = some (240 : Nat)
      ∧ descriptorsFrom img.data 240 0 = some ⟨280, 0, 0, 296, 280⟩)) (by decide +kernel)
  obtain ⟨himports, hname, haddress, htable, hfirst⟩ := of_decide_eq_true h
  have hasks : ComesToLibrary img ⟨280, 0, 0, 296, 280⟩ :=
    ⟨240, 240, haddress, Image.fileOffset?_eq_some_iff.mp htable, ⟨0, Reached.zero, hfirst⟩,
      by decide⟩
  -- the address has one place, which is the end of the file
  refine ⟨img, hread, .library hasks, fun place hplace hmapped => ?_, eq_ok_of_toOption himports⟩
  have heq := hmapped.unique (Image.fileOffset?_eq_some_iff.mp hname)
  omega

end Provenance.Pe
