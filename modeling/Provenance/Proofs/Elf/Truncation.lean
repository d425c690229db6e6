import Mathlib.Data.List.TakeDrop
import Provenance.Proofs.Elf.SectionTable

/-!
# ELF files that are cut off

The front of a file that is an ELF file. The reader checks that the file header and all section
headers are there, and refuses the front if they are not. It does not check that the section of the
names is there: names are read as far as the file goes, so that a front which has all headers is
read with names that are shorter.

* `neededSize` — how many bytes the reader insists on.
* `namePlace` — where the name of a section starts in the file; `NameWithin` — it ends in the front.
* `Section.cutOff` — a section with a shorter name.
* `hasSections_front_iff` — the front is an ELF file exactly if it has the bytes that are needed.
* `sectionIn_front` — the sections of the front are those of the file, with their names cut off.

Main result:

* `front_read_with_names_cut_off` — what is made of the front of an ELF file.
-/

namespace Provenance.Elf

section Places

variable (data : Bytes) (fileClass : FileClass) (order : ByteOrder)

/-- The bytes that the reader insists on: the file header and, where there is a section table, its
first header and all others. -/
def neededSize : Nat :=
  if tableStart data fileClass order = 0 then fileClass.headerSize
  else max fileClass.headerSize
    (tableStart data fileClass order
      + max 1 (sectionTotal data fileClass order) * fileClass.sectionSize)

/-- The place in the file where the name of a section starts. -/
def namePlace (i : Nat) : Nat :=
  let names := sectionPlace data fileClass order (namesNumber data fileClass order)
  data.number order (names + 8 + 2 * fileClass.width) fileClass.width
    + data.number order (sectionPlace data fileClass order i) 4

end Places

/-- The section with only the first characters of its name. -/
def Section.cutOff (s : Section) (count : Nat) : Section :=
  { s with name := String.ofList (s.name.toList.take count) }

/-!
## Numbers in the front of a file

A number that lies within the front is the same there as in the whole file.
-/

theorem FileClass.headerSize_eq (fileClass : FileClass) :
    fileClass.headerSize = 40 + 3 * fileClass.width := by
  cases fileClass <;> rfl

theorem FileClass.sectionSize_eq (fileClass : FileClass) :
    fileClass.sectionSize = 16 + 6 * fileClass.width := by
  cases fileClass <;> rfl

section Front

variable {data : Bytes} {fileClass : FileClass} {order : ByteOrder} {n : Nat}

theorem sectionAt_front {place : Nat} (h : place + fileClass.sectionSize ≤ n) :
    sectionAt (data.extract 0 n) fileClass order place = sectionAt data fileClass order place := by
  rw [fileClass.sectionSize_eq] at h
  simp (disch := omega) only [sectionAt, Bytes.number_front]

section Header

variable (hheader : fileClass.headerSize ≤ n)

include hheader

/-- A file header in the front is that of the file. -/
theorem headerIn_front (osAbi : Int) :
    headerIn (data.extract 0 n) ⟨fileClass, order, osAbi⟩
      = headerIn data ⟨fileClass, order, osAbi⟩ := by
  rw [fileClass.headerSize_eq] at hheader
  have hident : (data.extract 0 n).extract 0 16 = data.extract 0 16 :=
    data.extract_extract_of_le (by omega)
  simp (disch := omega) only [headerIn, tableStart, stride, headerCount, headerNames, hident,
    Bytes.number_front]

-- The section table is found by these numbers of the file header, so that they alone have to be
-- the same before anything is known about the table.

theorem tableStart_front :
    tableStart (data.extract 0 n) fileClass order = tableStart data fileClass order :=
  Int.ofNat_inj.mp (congrArg (·.sectionHeadersOffset) (headerIn_front hheader 0))

theorem stride_front :
    stride (data.extract 0 n) fileClass order = stride data fileClass order :=
  Int.ofNat_inj.mp (congrArg (·.sectionHeaderSize) (headerIn_front hheader 0))

theorem headerCount_front :
    headerCount (data.extract 0 n) fileClass order = headerCount data fileClass order :=
  Int.ofNat_inj.mp (congrArg (·.sectionHeaderCount) (headerIn_front hheader 0))

theorem headerNames_front :
    headerNames (data.extract 0 n) fileClass order = headerNames data fileClass order :=
  Int.ofNat_inj.mp (congrArg (·.nameTableIndex) (headerIn_front hheader 0))

theorem sectionPlace_front (i : Nat) :
    sectionPlace (data.extract 0 n) fileClass order i = sectionPlace data fileClass order i := by
  rw [sectionPlace, sectionPlace, tableStart_front hheader, stride_front hheader]

variable (hfirst : tableStart data fileClass order + fileClass.sectionSize ≤ n)

include hfirst

/-- The front has the same number of sections, be it told by the file header or by the first
section. -/
theorem sectionTotal_front :
    sectionTotal (data.extract 0 n) fileClass order = sectionTotal data fileClass order := by
  rw [fileClass.sectionSize_eq] at hfirst
  rw [sectionTotal, sectionTotal, headerCount_front hheader, tableStart_front hheader,
    data.number_front order (by omega)]

/-- The front has the same number of the names, be it told by the file header or by the first
section. -/
theorem namesNumber_front :
    namesNumber (data.extract 0 n) fileClass order = namesNumber data fileClass order := by
  rw [fileClass.sectionSize_eq] at hfirst
  rw [namesNumber, namesNumber, headerNames_front hheader, tableStart_front hheader,
    data.number_front order (by omega)]

end Header

theorem FileClass.byte_injective {fileClass fileClass' : FileClass}
    (h : fileClass.byte = fileClass'.byte) : fileClass = fileClass' := by
  cases fileClass <;> cases fileClass' <;> first | rfl | cases h

theorem encodingByte_injective {order order' : ByteOrder}
    (h : encodingByte order = encodingByte order') : order = order' := by
  cases order <;> cases order' <;> first | rfl | cases h

/-- The identification bytes of the front are those of the file. -/
theorem identifies_front_iff (h : Identifies data fileClass order) {fileClass' : FileClass}
    {order' : ByteOrder} :
    Identifies (data.extract 0 n) fileClass' order' ↔
      16 ≤ n ∧ fileClass' = fileClass ∧ order' = order := by
  have hsize := h.size
  have hget : 16 ≤ n → ∀ i < 16, (data.extract 0 n)[i]? = data[i]? := by
    intro hn i hi
    rw [Array.getElem?_extract, if_pos (by omega), Nat.zero_add]
  -- a front that is identified has the bytes of the identification
  constructor
  · intro hfront
    have hn : 16 ≤ n := by
      have hle := hfront.size
      rw [Array.size_extract] at hle
      omega
    have hclass := hfront.fileClass
    have hencoding := hfront.encoding
    rw [hget hn 4 (by decide), h.fileClass, Option.some.injEq] at hclass
    rw [hget hn 5 (by decide), h.encoding, Option.some.injEq] at hencoding
    exact ⟨hn, (FileClass.byte_injective hclass).symm, (encodingByte_injective hencoding).symm⟩
  · rintro ⟨hn, rfl, rfl⟩
    refine ⟨by rw [Array.size_extract]; omega, ?_, ?_, ?_, ?_⟩
    · exact (Bytes.holdsAt_front (Nat.le_trans (by decide) hn)).mpr h.mark
    · rw [hget hn 4 (by decide), h.fileClass]
    · rw [hget hn 5 (by decide), h.encoding]
    · rw [hget hn 6 (by decide), h.version]

/-!
## Which fronts are ELF files

A front is read exactly when it reaches behind the header and the section table. Where the names
stand is not asked.
-/

/-- The file header is needed in any case. -/
theorem headerSize_le_neededSize (data : Bytes) (fileClass : FileClass) (order : ByteOrder) :
    fileClass.headerSize ≤ neededSize data fileClass order := by
  rw [neededSize]
  split
  · exact Nat.le_refl _
  · exact Nat.le_max_left _ _

/-- Where there is a section table, its first header and all others are needed. -/
theorem neededSize_le_iff (hstart : tableStart data fileClass order ≠ 0) :
    neededSize data fileClass order ≤ n ↔ fileClass.headerSize ≤ n
      ∧ tableStart data fileClass order + fileClass.sectionSize ≤ n
      ∧ tableStart data fileClass order
          + sectionTotal data fileClass order * fileClass.sectionSize ≤ n := by
  rw [neededSize, if_neg hstart, Nat.max_le, and_congr_right_iff]
  intro _
  rcases Nat.eq_zero_or_pos (sectionTotal data fileClass order) with hzero | hpos
  · -- an empty table is asked for its first header all the same
    rw [hzero, Nat.max_eq_left (Nat.zero_le 1)]
    omega
  · -- the first header is one of all
    have hone := Nat.mul_le_mul_right fileClass.sectionSize hpos
    rw [Nat.max_eq_right hpos]
    omega

/-- The sections of a table lie one behind the other. -/
theorem sectionPlace_end_le (hstride : stride data fileClass order = fileClass.sectionSize)
    {i count : Nat} (hi : i < count) :
    sectionPlace data fileClass order i + fileClass.sectionSize
      ≤ tableStart data fileClass order + count * fileClass.sectionSize := by
  have hmul : (i + 1) * fileClass.sectionSize ≤ count * fileClass.sectionSize :=
    Nat.mul_le_mul_right _ hi
  rw [Nat.succ_mul] at hmul
  rw [sectionPlace, hstride]
  omega

/-- The headers of a table that fit in a file fit in its front if the front reaches behind them. -/
theorem HeadersFit.front (h : HeadersFit data fileClass order)
    (hstride : stride data fileClass order = fileClass.sectionSize)
    (hstart : tableStart data fileClass order ≠ 0) (hn : neededSize data fileClass order ≤ n) :
    HeadersFit (data.extract 0 n) fileClass order := by
  obtain ⟨hheader, hfirst, hlast⟩ := (neededSize_le_iff hstart).mp hn
  have hwithin := h.within
  constructor
  case count => exact (sectionTotal_front hheader hfirst).symm ▸ h.count
  case names =>
    rw [namesNumber_front hheader hfirst, sectionTotal_front hheader hfirst]
    exact h.names
  -- the last header ends within the front, as is asked for
  case within =>
    rw [tableStart_front hheader, sectionTotal_front hheader hfirst, Array.size_extract]
    omega
  case strings =>
    -- the type of the section of the names is in its header
    have hplace := sectionPlace_end_le hstride h.names
    rw [fileClass.sectionSize_eq] at hplace hlast
    rw [namesNumber_front hheader hfirst, sectionPlace_front hheader,
      data.number_front order (by omega)]
    exact h.strings

/-- The front of an ELF file is one exactly if it has the bytes that are needed. -/
theorem hasSections_front_iff (h : HasSections data fileClass order) {fileClass' : FileClass}
    {order' : ByteOrder} :
    HasSections (data.extract 0 n) fileClass' order' ↔
      fileClass' = fileClass ∧ order' = order ∧ neededSize data fileClass order ≤ n := by
  constructor
  · rintro ⟨hident, hheader, htable⟩
    obtain ⟨-, rfl, rfl⟩ := (identifies_front_iff h.ident).mp hident
    rw [Array.size_extract] at hheader
    have hn : fileClass'.headerSize ≤ n := by omega
    refine ⟨rfl, rfl, ?_⟩
    -- what the front tells about its table is what the file tells, as soon as it is in the front
    by_cases hstart : tableStart data fileClass' order' = 0
    · rwa [neededSize, if_pos hstart]
    · rw [TableFits, tableStart_front hn, or_iff_right hstart] at htable
      obtain ⟨-, hfirst, hheaders⟩ := htable
      rw [tableStart_front hn, Array.size_extract] at hfirst
      have hfirst : tableStart data fileClass' order' + fileClass'.sectionSize ≤ n := by omega
      refine (neededSize_le_iff hstart).mpr ⟨hn, hfirst, ?_⟩
      rw [sectionTotal_front hn hfirst] at hheaders
      rcases hheaders with hempty | hheaders
      · rw [hempty]
        omega
      · have hwithin := hheaders.within
        rw [sectionTotal_front hn hfirst, tableStart_front hn, Array.size_extract] at hwithin
        omega
  -- with the bytes that are needed, the front passes the checks that the file has passed
  · rintro ⟨rfl, rfl, hn⟩
    have hheader := Nat.le_trans (headerSize_le_neededSize data fileClass' order') hn
    have hlong : 16 ≤ n := by
      rw [fileClass'.headerSize_eq] at hheader
      omega
    refine ⟨(identifies_front_iff h.ident).mpr ⟨hlong, rfl, rfl⟩, ?_, ?_⟩
    · rw [Array.size_extract]
      exact Nat.le_min.mpr ⟨hheader, h.header⟩
    -- the table of the front is that of the file, and all of it is in the front
    by_cases hstart : tableStart data fileClass' order' = 0
    · exact .inl ((tableStart_front hheader).trans hstart)
    · obtain ⟨-, hfirst, -⟩ := (neededSize_le_iff hstart).mp hn
      obtain ⟨hstride, hfirst', hheaders⟩ := h.table.resolve_left hstart
      refine .inr ⟨(stride_front hheader).trans hstride, ?_, ?_⟩
      · rw [tableStart_front hheader, Array.size_extract]
        omega
      · rw [sectionTotal_front hheader hfirst]
        exact hheaders.imp id fun hfit => hfit.front hstride hstart hn

/-!
## Names in the front of a file

A name is cut off where the front ends. It is whole exactly when it ends within the front.
-/

/-- Cutting a name off changes nothing exactly if the name is not longer. -/
theorem Section.cutOff_eq_self_iff {s : Section} {count : Nat} :
    s.cutOff count = s ↔ s.name.length ≤ count := by
  obtain ⟨index, name, header⟩ := s
  simp only [Section.cutOff, Section.mk.injEq, true_and, and_true]
  rw [← String.toList_inj, String.toList_ofList, List.take_eq_self_iff, String.length_toList]

/-- A section of the front is that of the file with its name cut off where the front ends. -/
theorem sectionIn_front (h : HeadersFit data fileClass order)
    (hstride : stride data fileClass order = fileClass.sectionSize)
    (hstart : tableStart data fileClass order ≠ 0) (hn : neededSize data fileClass order ≤ n)
    {i : Nat} (hi : i < sectionTotal data fileClass order) :
    sectionIn (data.extract 0 n) fileClass order i
      = (sectionIn data fileClass order i).cutOff (n - namePlace data fileClass order i) := by
  -- what is needed reaches behind the header, the first section header and the whole table
  obtain ⟨hheader, hfirst, hlast⟩ := (neededSize_le_iff hstart).mp hn
  have hplace := sectionPlace_end_le hstride hi
  have hnames := sectionPlace_end_le hstride h.names
  unfold sectionIn Section.cutOff
  rw [sectionPlace_front hheader, sectionAt_front (by omega), Section.mk.injEq]
  refine ⟨rfl, ?_, rfl⟩
  rw [nameAt, nameAt, namesNumber_front hheader hfirst]
  split
  · -- without a section of the names there is nothing to cut off
    simp
  · -- the name starts at the same place and ends with the section of the names or with the front
    rw [fileClass.sectionSize_eq] at hplace hnames hlast
    simp (disch := omega) only [sectionPlace_front hheader, Bytes.number_front]
    rw [← String.toList_inj, String.toList_ofList]
    exact data.asciiText_front _ _ _

/-- The sections of the front are those of the file, with their names cut off. -/
theorem sectionsIn_front (h : HasSections data fileClass order)
    (hn : neededSize data fileClass order ≤ n) :
    sectionsIn (data.extract 0 n) fileClass order
      = (sectionsIn data fileClass order).map fun s =>
          s.cutOff (n - namePlace data fileClass order s.index) := by
  have hheader := Nat.le_trans (headerSize_le_neededSize data fileClass order) hn
  unfold sectionsIn
  rw [tableStart_front hheader]
  split
  · rfl
  · next hstart =>
    obtain ⟨-, hfirst, -⟩ := (neededSize_le_iff hstart).mp hn
    -- there is a table in both files, with the same number of headers in it
    obtain ⟨hstride, -, hheaders⟩ := h.table.resolve_left hstart
    rw [sectionTotal_front hheader hfirst, List.map_map]
    refine List.map_congr_left fun i hi => ?_
    rw [List.mem_range] at hi
    have hfit := hheaders.resolve_left (by omega)
    exact sectionIn_front hfit hstride hstart hn hi

end Front

/-- The name of a section, if it is not empty, lies in the first `n` bytes of the file. -/
def NameWithin (img : Image) (n : Nat) (s : Section) : Prop :=
  s.name = "" ∨ namePlace img.data img.ident.fileClass img.ident.order s.index + s.name.length ≤ n

/-- Whether a name lies in the front can be computed. -/
instance (img : Image) (n : Nat) (s : Section) : Decidable (NameWithin img n s) := by
  unfold NameWithin
  infer_instance

/-- Cutting the name off where the front ends changes nothing exactly if the name lies in the front.
-/
theorem cutOff_eq_self_iff_nameWithin {img : Image} {n : Nat} {s : Section} :
    s.cutOff (n - namePlace img.data img.ident.fileClass img.ident.order s.index) = s
      ↔ NameWithin img n s := by
  rw [Section.cutOff_eq_self_iff, NameWithin, ← String.length_eq_zero_iff]
  omega

section Reading

variable {data : Bytes} {img : Image} {n : Nat} (h : Image.ofBytes data = .ok img)

include h

/-- A front without the bytes that are needed is refused. -/
theorem refused_of_lt (hn : n < neededSize data img.ident.fileClass img.ident.order) :
    ∃ e, Image.ofBytes (data.extract 0 n) = .error e ∧ e.misread? = none := by
  obtain ⟨hsections, -⟩ := ofBytes_eq_ok_iff.mp h
  cases hread : Image.ofBytes (data.extract 0 n) with
  | error e => exact ⟨e, rfl, Image.misread?_of_ofBytes hread⟩
  | ok front =>
    obtain ⟨-, -, hle⟩ := (hasSections_front_iff hsections).mp (ofBytes_eq_ok_iff.mp hread).1
    omega

/-- A front with the bytes that are needed is read, with its names cut off. -/
theorem read_of_le (hn : neededSize data img.ident.fileClass img.ident.order ≤ n) :
    ∃ front, Image.ofBytes (data.extract 0 n) = .ok front
      ∧ front.ident = img.ident ∧ front.header = img.header
      ∧ front.sections = img.sections.map (fun s =>
          s.cutOff (n - namePlace data img.ident.fileClass img.ident.order s.index)) := by
  obtain ⟨hsections, hosAbi, himage⟩ := ofBytes_eq_ok_iff.mp h
  have hheader := Nat.le_trans (headerSize_le_neededSize _ _ _) hn
  have hfront := (hasSections_front_iff hsections).mpr ⟨rfl, rfl, hn⟩
  -- the byte behind the version is in the front as well
  have hosAbi' : (((data.extract 0 n).getD 7 0).toNat : Int) = img.ident.osAbi := by
    have hlong := hfront.ident.size
    rw [Array.size_extract] at hlong
    rw [← hosAbi, Array.getD_eq_getD_getElem?, Array.getD_eq_getD_getElem?, Array.getElem?_extract,
      if_pos (by omega)]
  let front : Image := ⟨data.extract 0 n, img.ident, headerIn (data.extract 0 n) img.ident,
    sectionsIn (data.extract 0 n) img.ident.fileClass img.ident.order⟩
  have hread : Image.ofBytes (data.extract 0 n) = .ok front :=
    ofBytes_eq_ok_iff.mpr ⟨hfront, hosAbi', rfl⟩
  refine ⟨front, hread, rfl, ?_, ?_⟩
  · rw [himage]
    exact headerIn_front hheader _
  · rw [himage]
    -- the sections have been cut off one by one
    exact sectionsIn_front hsections hn

end Reading

/-- The front of an ELF file is refused if it does not have the bytes that are needed. Otherwise it
is read with the same header and the same section headers, and each name is what the front has of
the name in the file. So it is refused or has the same sections exactly if it is too short to be
read at all or reaches behind all names. -/
theorem front_read_with_names_cut_off {data : Bytes} {img : Image}
    (h : Image.ofBytes data = .ok img) (n : Nat) :
    (n < neededSize data img.ident.fileClass img.ident.order →
        ∃ e, Image.ofBytes (data.extract 0 n) = .error e ∧ e.misread? = none)
      ∧ (neededSize data img.ident.fileClass img.ident.order ≤ n →
        ∃ front, Image.ofBytes (data.extract 0 n) = .ok front
          ∧ front.ident = img.ident ∧ front.header = img.header
          ∧ front.sections = img.sections.map (fun s =>
              s.cutOff (n - namePlace data img.ident.fileClass img.ident.order s.index)))
      ∧ (((∃ e, Image.ofBytes (data.extract 0 n) = .error e ∧ e.misread? = none)
            ∨ ∃ front, Image.ofBytes (data.extract 0 n) = .ok front
              ∧ front.sections = img.sections) ↔
          n < neededSize data img.ident.fileClass img.ident.order
            ∨ ∀ s ∈ img.sections, NameWithin img n s) := by
  obtain rfl := data_of_ofBytes h
  refine ⟨refused_of_lt h, read_of_le h, ?_⟩
  -- a front that is read has the same sections exactly if cutting the names off changes none
  rcases Nat.lt_or_ge n (neededSize img.data img.ident.fileClass img.ident.order) with hlt | hn
  · exact iff_of_true (.inl (refused_of_lt h hlt)) (.inl hlt)
  obtain ⟨front, hread, -, -, hsections⟩ := read_of_le h hn
  have hnames : front.sections = img.sections ↔ ∀ s ∈ img.sections, NameWithin img n s := by
    simp only [← cutOff_eq_self_iff_nameWithin, hsections]
    constructor
    · intro hsame
      exact List.map_eq_map_iff.mp (hsame.trans (List.map_id _).symm)
    · intro hsame
      exact (List.map_congr_left hsame).trans (List.map_id _)
  rw [or_iff_right (Nat.not_lt.mpr hn), ← hnames, hread]
  simp

/-- A file of 32 bits with two sections, of which the second holds the names and ends the file. It
is its own only name. -/
def namedFile : Bytes :=
  let zeros := fun n => List.replicate n (0 : UInt8)
  let header := [0x7F, 0x45, 0x4C, 0x46, 1, 1, 1] ++ zeros 9 ++ [1, 0, 3, 0, 1, 0, 0, 0]
    ++ zeros 8 ++ [52, 0, 0, 0] ++ zeros 4 ++ [52, 0, 0, 0, 0, 0, 40, 0, 2, 0, 1, 0]
  let names := [1, 0, 0, 0] ++ [3, 0, 0, 0] ++ zeros 8 ++ [132, 0, 0, 0] ++ [8, 0, 0, 0]
    ++ zeros 8 ++ [1, 0, 0, 0] ++ zeros 4
  let strings := [0, 0x2E, 0x6E, 0x61, 0x6D, 0x65, 0x73, 0]
  (header ++ zeros 40 ++ names ++ strings).toArray

/-- Without its last byte, the NUL behind the name, the file is read the same; without the names and
a byte of the headers it is refused. -/
theorem namedFile_front :
    ∃ img, Image.ofBytes namedFile = .ok img
      ∧ (∃ front, Image.ofBytes (namedFile.extract 0 139) = .ok front
          ∧ front.sections = img.sections)
      ∧ ∃ e, Image.ofBytes (namedFile.extract 0 131) = .error e ∧ e.misread? = none := by
  obtain ⟨img, hread, hfound⟩ := exists_ok_of_any (x := Image.ofBytes namedFile)
    (p := fun img => decide (neededSize namedFile img.ident.fileClass img.ident.order = 132
      ∧ ∀ s ∈ img.sections, NameWithin img 139 s)) (by decide +kernel)
  -- the headers end at 132, and the last name ends at 139
  obtain ⟨hneeded, hwithin⟩ := of_decide_eq_true hfound
  obtain ⟨-, hlong, hsame⟩ := front_read_with_names_cut_off hread 139
  obtain ⟨hshort, -, -⟩ := front_read_with_names_cut_off hread 131
  rw [hneeded] at hlong hshort
  refine ⟨img, hread, (hsame.mpr (.inr hwithin)).resolve_left ?_, hshort (by decide)⟩
  obtain ⟨front, hfront, -⟩ := hlong (by decide)
  rintro ⟨e, he, -⟩
  cases hfront.symm.trans he

/-- Without its last four bytes the file is read with a shorter name. -/
theorem namedFile_shorter_name :
    ∃ img front, Image.ofBytes namedFile = .ok img
      ∧ Image.ofBytes (namedFile.extract 0 136) = .ok front
      ∧ img.sectionNames = ["", ".names"] ∧ front.sectionNames = ["", ".na"] := by
  obtain ⟨img, hread, hnames⟩ := exists_ok_of_any (x := Image.ofBytes namedFile)
    (p := fun img => decide (img.sectionNames = ["", ".names"])) (by decide +kernel)
  obtain ⟨front, hfront, hcut⟩ := exists_ok_of_any (x := Image.ofBytes (namedFile.extract 0 136))
    (p := fun front => decide (front.sectionNames = ["", ".na"])) (by decide +kernel)
  exact ⟨img, front, hread, hfront, of_decide_eq_true hnames, of_decide_eq_true hcut⟩

end Provenance.Elf
