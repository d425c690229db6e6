import Provenance.Proofs.Failures
import Provenance.Proofs.Reading

/-!
# PE images that were read

What holds of an image that the reader made, and of the failures of a reader that made none.

* `Image.Parsed` — the sections of an image have headers that can stand in a file.
* `Image.Mapped` — an address lies at a place of the file, told from the section table alone.
* `Image.fileOffset?_eq_some_iff` — the translation of addresses finds these places and no other.
* `Image.parsed_of_ofBytes` — an image that was read has its file and is `Parsed`.
* `Image.not_escapes_of_ofBytes` — a file that is no image is refused without going through.
-/

namespace Provenance.Pe

/-- At a place of the file a record is read exactly when it ends within the file. -/
theorem read_natCast {α : Type} (c : Codec α) (kind : RecordKind) (data : Bytes) (place : Nat) :
    read c kind data place =
      if place + c.size ≤ data.size then .ok (c.recordAt data place)
      else .error (.tooShort kind data.size (place + c.size)) :=
  c.readOr_eq data place _ _

/-- A record at a place of the file is refused with an error of the reader's own. -/
theorem misread?_of_read {α : Type} {c : Codec α} {kind : RecordKind} {data : Bytes} {start : Nat}
    {e : RecordError} (h : read c kind data start = .error e) : e.misread? = none := by
  rw [Codec.error_of_readOr h]
  rfl

/-- A record that is read for an image is refused in the same way. -/
theorem misread?_of_ofRecord {α : Type} {c : Codec α} {kind : RecordKind} {data : Bytes}
    {start : Nat} {e : ImageError} (h : ofRecord (read c kind data start) = .error e) :
    e.misread? = none := by
  obtain ⟨e', he, rfl⟩ := mapError_eq_error_iff.mp h
  exact misread?_of_read he

namespace Image

variable {data : Bytes} {img : Image}

/-!
## Addresses

An address has a place in the file through the first section that holds it, if this section has raw
data there.
-/

/-- Every section header has words that fit and so can stand in a file. -/
def Parsed (img : Image) : Prop := ∀ s ∈ img.sections, SectionHeader.codec.Fits s.header

/-- The byte at an address lies at a place of the file: the first section that holds the address
has that many bytes in the file. -/
def Mapped (img : Image) (address : Int) (place : Nat) : Prop :=
  ∃ before s after, img.sections = before ++ s :: after
    ∧ s.header.Holds address ∧ (∀ t ∈ before, ¬ t.header.Holds address)
    ∧ address - s.header.virtualAddress < s.header.rawSize
    ∧ (place : Int) = s.header.rawOffset + (address - s.header.virtualAddress)

theorem find?_holds_eq_some_iff {address : Int} {s : Section} :
    img.sections.find? (·.header.Holds address) = some s ↔
      s.header.Holds address ∧ ∃ before after, img.sections = before ++ s :: after
        ∧ ∀ t ∈ before, ¬ t.header.Holds address := by
  simp [List.find?_eq_some_iff_append]

/-- The translation of an address is the place where the byte lies. -/
theorem fileOffset?_eq_some_iff {address : Int} {place : Nat} :
    img.fileOffset? address = some (place : Int) ↔ img.Mapped address place := by
  unfold fileOffset?
  constructor
  · intro h
    cases hfind : img.sections.find? (·.header.Holds address) with
    | none =>
      rw [hfind] at h
      cases h
    | some s =>
      simp only [hfind] at h
      split at h
      next => cases h
      -- the first section that holds the address decides, even if another holds it too
      next hraw =>
        obtain ⟨hholds, before, after, heq, hbefore⟩ := find?_holds_eq_some_iff.mp hfind
        refine ⟨before, s, after, heq, hholds, hbefore, Int.not_le.mp hraw, ?_⟩
        exact (Option.some.inj h).symm
  · rintro ⟨before, s, after, heq, hholds, hbefore, hraw, hplace⟩
    have hfind := find?_holds_eq_some_iff.mpr ⟨hholds, before, after, heq, hbefore⟩
    simp only [hfind, if_neg (Int.not_le.mpr hraw), hplace]

theorem Mapped.unique {address : Int} {place place' : Nat} (h : img.Mapped address place)
    (h' : img.Mapped address place') : place = place' := by
  have heq := (fileOffset?_eq_some_iff.mpr h).symm.trans (fileOffset?_eq_some_iff.mpr h')
  exact Int.ofNat.inj (Option.some.inj heq)

/-- No translation leads in front of the file. -/
theorem exists_mapped_of_fileOffset? (hparsed : img.Parsed) {address offset : Int}
    (h : img.fileOffset? address = some offset) :
    ∃ place : Nat, offset = place ∧ img.Mapped address place := by
  have hnonneg : 0 ≤ offset := by
    unfold fileOffset? at h
    split at h
    next => cases h
    next s hfind =>
      -- the section holds the address, which is thus not in front of its start
      have hmem := List.mem_of_find?_eq_some hfind
      have hholds := (find?_holds_eq_some_iff.mp hfind).1
      obtain ⟨-, -, -, hraw, -⟩ := hparsed s hmem
      have hoffset : 0 ≤ s.header.rawOffset := Word.nonneg_of_fits rfl hraw
      have hwithin : s.header.virtualAddress ≤ address := hholds.1
      simp only at h
      split at h
      next => cases h
      next =>
        cases h
        omega
  obtain ⟨place, rfl⟩ := Int.eq_ofNat_of_zero_le hnonneg
  exact ⟨place, rfl, fileOffset?_eq_some_iff.mp h⟩

/-- An address without an offset has no place. -/
theorem fileOffset?_eq_none_iff (hparsed : img.Parsed) {address : Int} :
    img.fileOffset? address = none ↔ ∀ place, ¬ img.Mapped address place := by
  constructor
  · intro h place hmap
    rw [fileOffset?_eq_some_iff.mpr hmap] at h
    cases h
  · intro h
    cases hoffset : img.fileOffset? address with
    | none => rfl
    | some offset =>
      obtain ⟨place, -, hmap⟩ := exists_mapped_of_fileOffset? hparsed hoffset
      exact absurd hmap (h place)

/-!
## Reading an image

The headers of an image that was read fit their layouts, and the reader refuses with errors of its
own.
-/

/-- A DOS header that is refused is too short, or has another mark. -/
theorem misread?_of_dosHeader {e : RecordError} (h : DosHeader.decode data 0 = .error e) :
    e.misread? = none := by
  have hdecode : DosHeader.decode data 0 = _ := DosHeader.decode_natCast data 0
  rw [hdecode] at h
  rcases bind_eq_error_iff.mp h with hread | ⟨dos, -, hmagic⟩
  · exact misread?_of_read hread
  · cases ite_ok_eq_error hmagic
    rfl

/-- Where no COFF header is found, it is for a reason of the reader's own. -/
theorem coffOffset_eq_error {e : ImageError} (h : coffOffset data = .error e) :
    e.misread? = none := by
  unfold coffOffset at h
  rcases bind_eq_error_iff.mp h with hdos | ⟨dos, -, h⟩
  · obtain ⟨e', herror, rfl⟩ := mapError_eq_error_iff.mp hdos
    exact misread?_of_dosHeader herror
  · simp only at h
    rcases ite_error_eq_error h with rfl | h
    · rfl
    · cases ite_ok_eq_error h
      rfl

/-- The COFF header is at a place of the file that a word of four bytes can point to. -/
theorem exists_place_of_coffOffset {start : Int} (h : coffOffset data = .ok start) :
    ∃ place : Nat, start = place ∧ place ≤ data.size ∧ place < 0x100000004 := by
  unfold coffOffset at h
  obtain ⟨dos, hdos, h⟩ := bind_eq_ok_iff.mp h
  have hdecode : DosHeader.decode data 0 = _ := DosHeader.decode_natCast data 0
  have hread := mapError_eq_ok_iff.mp hdos
  rw [hdecode] at hread
  obtain ⟨dos', hread, hmagic⟩ := bind_eq_ok_iff.mp hread
  obtain ⟨-, hoffset, -⟩ := Codec.fits_of_readOr hread
  split at hmagic
  next =>
    cases hmagic
    -- the four bytes of the signature stand in the file where the word points
    have hnonneg : 0 ≤ dos.newHeaderOffset := Word.nonneg_of_fits rfl hoffset
    have hlt : dos.newHeaderOffset < 0x100000000 := Word.lt_of_fits rfl hoffset
    simp only at h
    split at h
    next => cases h
    next =>
      split at h
      next =>
        cases h
        exact ⟨(dos.newHeaderOffset + 4).toNat, by omega, by omega, by omega⟩
      next => cases h
  next => cases hmagic

/-- Reading the optional header at a place that can be named fails for a reason of its own, or
because its magic number is not there. -/
theorem not_escapes_of_readOptional {size : Int} {place : Nat} {e : ImageError}
    (haddress : Misread.IsAddress place) (h : readOptional data size place = .error e) :
    ¬ Escapes e.misread? := by
  -- the checks in their order; only the word of the magic number is read behind them
  unfold readOptional at h
  rcases ite_error_eq_error (ite_ok_eq_error h) with rfl | h
  · exact not_escapes_of_none rfl
  split at h
  next misread hread =>
    cases h
    -- the magic number is read without a look at the size of the file
    have hne := Word.ne_unaddressable_of_read haddress hread
    exact fun hescapes => hne (Option.some.inj hescapes)
  next magic hread =>
    split at h
    next =>
      cases h
      exact not_escapes_of_none rfl
    next kind hkind =>
      rcases ite_error_eq_error h with rfl | h
      · exact not_escapes_of_none rfl
      obtain ⟨e', hrecord, rfl⟩ := mapError_eq_error_iff.mp (map_eq_error_iff.mp h)
      rw [OptionalHeader.decode_natCast] at hrecord
      apply not_escapes_of_none
      rcases bind_eq_error_iff.mp hrecord with hdecode | ⟨header, -, hmagic⟩
      · exact misread?_of_read hdecode
      · cases ite_ok_eq_error hmagic
        rfl

/-- The data directories are refused for a reason of the reader's own. -/
theorem misread?_of_readDirectories {optional? : Option OptionalHeader} {size : Int} {place : Nat}
    {e : ImageError} (h : readDirectories data optional? size place = .error e) :
    e.misread? = none := by
  unfold readDirectories at h
  split at h
  next => cases h
  next header =>
    simp only at h
    rcases ite_error_eq_error h with rfl | h
    · rfl
    obtain ⟨i, -, hdirectory⟩ := exists_mem_of_mapM_eq_error h
    -- the directories stand behind the fixed part, whatever its kind
    have hplace : (place : Int) + fixedSize header + i * DataDirectory.codec.size
        = (place + (OptionalHeader.codec
            (if header.isPe32Plus then .pe32Plus else .pe32)).size
            + i * DataDirectory.codec.size : Nat) := by
      unfold fixedSize
      push_cast
      rfl
    rw [hplace] at hdirectory
    exact misread?_of_ofRecord hdirectory

/-- The data directories that are read fit their words. -/
theorem fits_of_readDirectories {optional? : Option OptionalHeader} {size offset : Int}
    {directories : List DataDirectory}
    (h : readDirectories data optional? size offset = .ok directories) :
    ∀ d ∈ directories, DataDirectory.codec.Fits d := by
  intro d hd
  unfold readDirectories at h
  split at h
  next =>
    cases h
    cases hd
  next header =>
    simp only at h
    split at h
    next => cases h
    next =>
      -- each directory is the outcome of one of the reads
      have hmap := mapM_eq_ok_iff.mp h
      have hmem := List.mem_map_of_mem (f := Except.ok (ε := ImageError)) hd
      rw [← hmap] at hmem
      obtain ⟨i, -, hdirectory⟩ := List.mem_map.mp hmem
      exact Codec.fits_of_readOr (mapError_eq_ok_iff.mp hdirectory)

/-- The section headers are refused for a reason of the reader's own. -/
theorem misread?_of_readSections {coff : CoffHeader} {place : Nat} {e : ImageError}
    (h : readSections data coff place = .error e) : e.misread? = none := by
  unfold readSections at h
  rcases ite_error_eq_error h with rfl | h
  · rfl
  -- one of the section headers is refused; where it is read is no negative place
  obtain ⟨i, -, hsection⟩ := exists_mem_of_mapM_eq_error h
  rcases bind_eq_error_iff.mp hsection with hheader | ⟨header, -, hdone⟩
  · have hplace : (place : Int) + i * SectionHeader.codec.size
        = (place + i * SectionHeader.codec.size : Nat) := by
      push_cast
      rfl
    rw [hplace] at hheader
    exact misread?_of_ofRecord hheader
  · cases hdone

/-- The section headers that are read fit their words. -/
theorem fits_of_readSections {coff : CoffHeader} {offset : Int} {sections : List Section}
    (h : readSections data coff offset = .ok sections) :
    ∀ s ∈ sections, SectionHeader.codec.Fits s.header := by
  intro s hs
  unfold readSections at h
  split at h
  next => cases h
  next =>
    have hmap := mapM_eq_ok_iff.mp h
    have hmem := List.mem_map_of_mem (f := Except.ok (ε := ImageError)) hs
    rw [← hmap] at hmem
    obtain ⟨i, -, hsection⟩ := List.mem_map.mp hmem
    obtain ⟨header, hheader, hdone⟩ := bind_eq_ok_iff.mp hsection
    cases hdone
    exact Codec.fits_of_readOr (mapError_eq_ok_iff.mp hheader)

/-- An image that was read has its file, and its tables can stand in a file. -/
theorem parsed_of_ofBytes (h : Image.ofBytes data = .ok img) :
    img.data = data ∧ img.Parsed ∧ ∀ d ∈ img.directories, DataDirectory.codec.Fits d := by
  unfold Image.ofBytes at h
  obtain ⟨start, -, h⟩ := bind_eq_ok_iff.mp h
  obtain ⟨coff, -, h⟩ := bind_eq_ok_iff.mp h
  obtain ⟨optional?, -, h⟩ := bind_eq_ok_iff.mp h
  obtain ⟨directories, hdirectories, h⟩ := bind_eq_ok_iff.mp h
  obtain ⟨sections, hsections, h⟩ := bind_eq_ok_iff.mp h
  cases h
  exact ⟨rfl, fits_of_readSections hsections, fits_of_readDirectories hdirectories⟩

/-- A file that is no image is refused, and the refusal does not go through. -/
theorem not_escapes_of_ofBytes {e : ImageError} (h : Image.ofBytes data = .error e) :
    ¬ Escapes e.misread? := by
  unfold Image.ofBytes at h
  -- one step of the reader after the other, each of which may be the one that fails
  rcases bind_eq_error_iff.mp h with hstart | ⟨start, hstart, h⟩
  · exact not_escapes_of_none (coffOffset_eq_error hstart)
  obtain ⟨place, rfl, hsize, hbound⟩ := exists_place_of_coffOffset hstart
  rcases bind_eq_error_iff.mp h with hcoff | ⟨coff, hcoff, h⟩
  · exact not_escapes_of_none (misread?_of_ofRecord hcoff)
  have hfits := Codec.fits_of_readOr (mapError_eq_ok_iff.mp hcoff)
  obtain ⟨optionalSize, hoptionalSize⟩ : ∃ n : Nat, coff.optionalHeaderSize = n := by
    obtain ⟨-, -, -, -, -, hsize, -⟩ := hfits
    exact Int.eq_ofNat_of_zero_le (Word.nonneg_of_fits rfl hsize)
  -- the optional header stands right behind the COFF header
  have hoffset : (place : Int) + CoffHeader.codec.size = (place + CoffHeader.codec.size : Nat) :=
    (Int.natCast_add ..).symm
  rw [hoffset] at h
  rcases bind_eq_error_iff.mp h with hoptional | ⟨optional?, -, h⟩
  · refine not_escapes_of_readOptional ?_ hoptional
    have hcodec : CoffHeader.codec.size = 20 := rfl
    unfold Misread.IsAddress
    omega
  rcases bind_eq_error_iff.mp h with hdirectories | ⟨directories, -, h⟩
  · exact not_escapes_of_none (misread?_of_readDirectories hdirectories)
  rcases bind_eq_error_iff.mp h with hsections | ⟨sections, -, h⟩
  · rw [hoptionalSize, ← Int.natCast_add] at hsections
    exact not_escapes_of_none (misread?_of_readSections hsections)
  · cases h

end Image

end Provenance.Pe
