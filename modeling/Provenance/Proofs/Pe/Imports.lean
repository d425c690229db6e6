import Provenance.Pe.Evidence
import Provenance.Proofs.Pe.ImportWalk

/-!
# Imports of a PE image

The import table as a whole. A library is read by its name and by a walk over its lookup table, and
the image by a walk over the descriptors with a library read for each. Both walks are known from the
entries at their places, so that here only their parts are put together: first for one library, then
for all of them.

* `imports_eq_ok_iff` — the reader finds what an image imports.
* `misread?_of_mapDescriptors` — no read of a descriptor fails behind the check of the length.
* `imports_read_exactly_when_table_is_whole` — and it fails exactly when the table is broken.
-/

namespace Provenance.Pe

section Reader

variable {img : Image}

/-- The functions of a descriptor are read exactly when its lookup table has them. -/
theorem functionNames_eq_ok_iff (hparsed : img.Parsed) {d : ImportDescriptor}
    {functions : List String} :
    img.functionNames d = .ok functions ↔ FunctionsAt img d.namesTable functions := by
  unfold Image.functionNames
  constructor
  · intro h
    cases hoffset : img.fileOffset? d.namesTable with
    | none =>
      rw [hoffset] at h
      cases h
    | some offset =>
      simp only [hoffset] at h
      obtain ⟨table, rfl, hmapped⟩ := Image.exists_mapped_of_fileOffset? hparsed hoffset
      obtain ⟨found, ⟨entries, hlisted, hnames⟩, rfl⟩ := (namesFrom_eq_ok_iff hparsed).mp h
      exact ⟨table, entries, hmapped, hlisted, hnames⟩
  · rintro ⟨table, entries, hmapped, hlisted, hnames⟩
    rw [Image.fileOffset?_eq_some_iff.mpr hmapped]
    exact (namesFrom_eq_ok_iff hparsed).mpr ⟨functions, ⟨entries, hlisted, hnames⟩, rfl⟩

/-- Where the functions cannot be read, the lookup table is broken. -/
theorem brokenLookup_of_functionNames (hparsed : img.Parsed) {d : ImportDescriptor}
    {e : ImportError} (h : img.functionNames d = .error e) :
    BrokenLookup img d.namesTable ∧ e.misread? = none := by
  unfold Image.functionNames at h
  cases hoffset : img.fileOffset? d.namesTable with
  | none =>
    rw [hoffset] at h
    cases h
    exact ⟨.table ((Image.fileOffset?_eq_none_iff hparsed).mp hoffset), rfl⟩
  | some offset =>
    simp only [hoffset] at h
    obtain ⟨table, rfl, hmapped⟩ := Image.exists_mapped_of_fileOffset? hparsed hoffset
    obtain ⟨hmisread, i, hreached, hmissing | ⟨entry, hentry, hgo, hname, hunmapped⟩⟩ :=
      exists_of_namesFrom_eq_error hparsed h
    · exact ⟨.entry hmapped hreached hmissing, hmisread⟩
    · exact ⟨.name hmapped hreached hentry hgo hname hunmapped, hmisread⟩

/-- What the reader makes of one descriptor. -/
def readImport (img : Image) (d : ImportDescriptor) : Except ImportError Import := do
  let library ← img.stringAt d.name
  let functions ← img.functionNames d
  return ⟨library, functions⟩

/-- A descriptor is read exactly as what it describes. -/
theorem readImport_eq_ok_iff (hparsed : img.Parsed) {d : ImportDescriptor} {found : Import} :
    readImport img d = .ok found ↔ Describes img d found := by
  unfold readImport
  -- the name first, and the functions only if there is a name
  constructor
  · intro h
    obtain ⟨library, hlibrary, h⟩ := bind_eq_ok_iff.mp h
    obtain ⟨functions, hfunctions, h⟩ := bind_eq_ok_iff.mp h
    cases h
    exact ⟨(stringAt_eq_ok_iff hparsed).mp hlibrary,
      (functionNames_eq_ok_iff hparsed).mp hfunctions⟩
  · rintro ⟨hlibrary, hfunctions⟩
    have hname := (stringAt_eq_ok_iff hparsed).mpr hlibrary
    have hlookup := (functionNames_eq_ok_iff hparsed).mpr hfunctions
    exact bind_eq_ok_iff.mpr ⟨_, hname, bind_eq_ok_iff.mpr ⟨_, hlookup, rfl⟩⟩

/-- Where a descriptor cannot be read, its name or its lookup table is broken. -/
theorem broken_of_readImport (hparsed : img.Parsed) {d : ImportDescriptor} {e : ImportError}
    (h : readImport img d = .error e) :
    (Unmapped img d.name ∨ BrokenLookup img d.namesTable) ∧ e.misread? = none := by
  -- the name of the library is looked for first, then the functions
  rcases bind_eq_error_iff.mp h with hlibrary | ⟨library, -, h⟩
  · obtain ⟨hunmapped, hmisread⟩ := unmapped_of_stringAt hparsed hlibrary
    exact ⟨.inl hunmapped, hmisread⟩
  · rcases bind_eq_error_iff.mp h with hfunctions | ⟨functions, -, h⟩
    · obtain ⟨hbroken, hmisread⟩ := brokenLookup_of_functionNames hparsed hfunctions
      exact ⟨.inr hbroken, hmisread⟩
    · cases h

/-- The reader goes through the descriptors of the table, if there is one. -/
theorem mapDescriptors_eq {α : Type} (img : Image)
    (read : ImportDescriptor → Except ImportError α) :
    img.mapDescriptors read =
      match tableAddress? img with
      | none => .ok []
      | some address =>
        match img.fileOffset? address with
        | none => .error (.directoryUnmapped address)
        | some offset => img.walkDescriptors read 4096 offset := by
  have hdirectory : img.directory? Image.importDirectory = img.directories[1]? := rfl
  unfold Image.mapDescriptors tableAddress?
  -- no directory, one without an address, or a table to go through
  rw [hdirectory]
  cases img.directories[1]? with
  | none => rfl
  | some directory =>
    by_cases hzero : directory.virtualAddress = 0
    · simp only [if_pos hzero]
    · simp only [if_neg hzero]
      rfl

/-- The imports are what the descriptors of the table are read as. -/
theorem imports_eq (img : Image) :
    img.imports =
      match tableAddress? img with
      | none => .ok []
      | some address =>
        match img.fileOffset? address with
        | none => .error (.directoryUnmapped address)
        | some offset => img.walkDescriptors (readImport img) 4096 offset :=
  mapDescriptors_eq img (readImport img)

/-- **The imports are read exactly from a table that is whole.** -/
theorem imports_eq_ok_iff (hparsed : img.Parsed) {found : List Import} :
    img.imports = .ok found ↔ ImportTable img found := by
  rw [imports_eq]
  constructor
  · intro h
    cases haddress : tableAddress? img with
    | none =>
      rw [haddress] at h
      cases h
      exact .absent haddress
    | some address =>
      simp only [haddress] at h
      cases hoffset : img.fileOffset? address with
      | none =>
        rw [hoffset] at h
        cases h
      | some offset =>
        simp only [hoffset] at h
        -- no section leads in front of the file, so that the walk starts at a place of it
        obtain ⟨table, rfl, hmapped⟩ := Image.exists_mapped_of_fileOffset? hparsed hoffset
        obtain ⟨descriptors, hlisted, hread⟩ := walkDescriptors_eq_ok_iff.mp h
        rw [List.filter_true] at hread
        exact .present haddress hmapped hlisted
          (hread.imp fun _ _ => (readImport_eq_ok_iff hparsed).mp)
  · intro h
    cases h with
    | absent haddress => rw [haddress]
    | present haddress hmapped hlisted hdescribed =>
      simp only [haddress, Image.fileOffset?_eq_some_iff.mpr hmapped]
      refine walkDescriptors_eq_ok_iff.mpr ⟨_, hlisted, ?_⟩
      rw [List.filter_true]
      exact hdescribed.imp fun _ _ => (readImport_eq_ok_iff hparsed).mpr

/-- **Where the imports cannot be read, the table is broken**, for a reason of the reader's own. -/
theorem brokenTable_of_imports (hparsed : img.Parsed) {e : ImportError}
    (h : img.imports = .error e) : BrokenTable img ∧ e.misread? = none := by
  rw [imports_eq] at h
  -- the table is broken where the walk stops: at its address, at a descriptor or at a library
  cases haddress : tableAddress? img with
  | none =>
    rw [haddress] at h
    cases h
  | some address =>
    simp only [haddress] at h
    cases hoffset : img.fileOffset? address with
    | none =>
      rw [hoffset] at h
      cases h
      exact ⟨.table haddress ((Image.fileOffset?_eq_none_iff hparsed).mp hoffset), rfl⟩
    | some offset =>
      simp only [hoffset] at h
      obtain ⟨table, rfl, hmapped⟩ := Image.exists_mapped_of_fileOffset? hparsed hoffset
      obtain ⟨i, hreached, ⟨hmissing, hmisread⟩ | ⟨d, hd, hgo, hread⟩⟩ :=
        exists_of_walkDescriptors_eq_error h
      · exact ⟨.descriptor haddress hmapped hreached hmissing, hmisread⟩
      · obtain ⟨hbroken, hmisread⟩ := broken_of_readImport hparsed hread
        exact ⟨.library haddress hmapped hreached hd hgo hbroken, hmisread⟩

/-- Whatever is made of the descriptors, the table is refused for a reason of the reader's own. -/
theorem misread?_of_mapDescriptors {α : Type} (hparsed : img.Parsed)
    {read : ImportDescriptor → Except ImportError α}
    (hread : ∀ d e, read d = .error e → e.misread? = none) {e : ImportError}
    (h : img.mapDescriptors read = .error e) : e.misread? = none := by
  -- the table has no place, or a descriptor of it could not be read
  unfold Image.mapDescriptors at h
  split at h
  next => cases h
  next directory _ =>
    replace h := ite_ok_eq_error h
    cases hoffset : img.fileOffset? directory.virtualAddress with
    | none =>
      rw [hoffset] at h
      cases h
      rfl
    | some offset =>
      simp only [hoffset] at h
      -- the walk starts at a place of the file, and each descriptor is read at one
      obtain ⟨table, rfl, -⟩ := Image.exists_mapped_of_fileOffset? hparsed hoffset
      obtain ⟨i, -, ⟨-, hmisread⟩ | ⟨d, -, -, hfail⟩⟩ := exists_of_walkDescriptors_eq_error h
      · exact hmisread
      · exact hread d e hfail

end Reader

/-- What the reader finds in the import table of an image is what the image imports, and it fails
exactly when the table is broken; no part of a broken table is kept. -/
theorem imports_read_exactly_when_table_is_whole {data : Bytes} {img : Image}
    (h : Image.ofBytes data = .ok img) :
    img.data = data
      ∧ (∀ found, img.imports = .ok found ↔ ImportTable img found)
      ∧ ((∃ e, img.imports = .error e) ↔ BrokenTable img)
      ∧ (∀ e, img.imports = .error e → e.misread? = none)
      ∧ (∀ found, ImportTable img found →
          img.knownImports = found.flatMap fun i => i.functions.map fun f => f ++ ":" ++ i.library)
      ∧ (BrokenTable img → img.knownImports = []) := by
  obtain ⟨hdata, hparsed, -⟩ := Image.parsed_of_ofBytes h
  have hbroken : (∃ e, img.imports = .error e) ↔ BrokenTable img := by
    constructor
    · rintro ⟨e, he⟩
      exact (brokenTable_of_imports hparsed he).1
    · intro hbroken
      cases himports : img.imports with
      | error e => exact ⟨e, rfl⟩
      | ok found =>
        -- the reader finds nothing in a broken table
        exact absurd hbroken ((imports_eq_ok_iff hparsed).mp himports).not_broken
  refine ⟨hdata, fun found => imports_eq_ok_iff hparsed, hbroken,
    fun e he => (brokenTable_of_imports hparsed he).2, ?_, ?_⟩
  · intro found hfound
    rw [Image.knownImports, Image.importedSymbols, (imports_eq_ok_iff hparsed).mpr hfound]
    rfl
  · intro hb
    obtain ⟨e, he⟩ := hbroken.mpr hb
    rw [Image.knownImports, Image.importedSymbols, he]
    rfl

/-- An image with one section, which holds an import table: the library `a`, and of it the function
`f` and the one with ordinal 1. Addresses are places of the file. -/
def smallImage : Bytes :=
  let zeros := fun n => List.replicate n (0 : UInt8)
  let headers := [0x4D, 0x5A] ++ zeros 58 ++ [64, 0, 0, 0] ++ signature
    ++ [0x4C, 1, 1, 0] ++ zeros 12 ++ [112, 0, 0, 0]
    ++ [0x0B, 1] ++ zeros 90 ++ [2, 0, 0, 0]
    ++ zeros 8 ++ [240, 0, 0, 0, 40, 0, 0, 0]
    ++ zeros 12 ++ [240, 0, 0, 0, 58, 0, 0, 0, 240, 0, 0, 0] ++ zeros 16
  let descriptors := [24, 1, 0, 0] ++ zeros 8 ++ [40, 1, 0, 0, 24, 1, 0, 0] ++ zeros 20
  let entries := [36, 1, 0, 0, 1, 0, 0, 128, 0, 0, 0, 0]
  let names := [0, 0, 0x66, 0, 0x61, 0]
  (headers ++ descriptors ++ entries ++ names).toArray

/-- The function by ordinal has no name, and is left out. -/
theorem smallImage_imports_read :
    ∃ img, Image.ofBytes smallImage = .ok img ∧ ImportTable img [⟨"a", ["f"]⟩]
      ∧ ¬ BrokenTable img ∧ img.knownImports = ["f:a"] := by
  -- the run on these bytes, from which the rest follows for the image that was read
  have hrun : (Image.ofBytes smallImage).toOption.bind (·.imports.toOption)
      = some [⟨"a", ["f"]⟩] := by
    decide +kernel
  cases h : Image.ofBytes smallImage with
  | error e =>
    rw [h] at hrun
    cases hrun
  | ok img =>
    obtain ⟨-, htable, hbroken, -, hknown, -⟩ := imports_read_exactly_when_table_is_whole h
    have himports : img.imports = .ok [⟨"a", ["f"]⟩] := by
      rw [h] at hrun
      change img.imports.toOption = _ at hrun
      cases hfound : img.imports with
      | error e =>
        rw [hfound] at hrun
        cases hrun
      | ok found =>
        rw [hfound] at hrun
        cases hrun
        rfl
    have hwhole := (htable _).mp himports
    refine ⟨img, rfl, hwhole, fun hb => ?_, hknown _ hwhole⟩
    obtain ⟨e, he⟩ := hbroken.mpr hb
    cases himports.symm.trans he

end Provenance.Pe
