import Provenance.Proofs.Elf.Truncation

/-!
# Numbers moved out of the file header

The number of sections and the number of the section of the names have two bytes each in the file
header. A file that needs more keeps them in the first section header: the first in place of its
size, behind a zero in the file header, and the second in place of its link, behind 0xFFFF. Both are
written here into a file that does without, and the file is read again.

* `Bytes.withNumber` — a file with the number at a place replaced; the other bytes stay
  (`Bytes.getElem?_withNumber_of_outside`).
* `countMoved`, `namesMoved`, `renumbered` — a file with one of the numbers moved, or both.
* `NamesApart` — the names share no byte with what is written.
* `Renumbered` — two files differ in the moved numbers alone and have the same sections. One step
  keeps it (`countMoved_renumbered`, `namesMoved_renumbered`), and so do several
  (`Renumbered.trans`).
* `Renumbered.hasSections`, `Renumbered.sectionsIn_eq` — such files are read alike.

Main results:

* `renumbered_read_alike` — a file with moved numbers has the same sections, but for the two fields.
* `namesMoved_twice_refused` — a section number of 0xFFFF in the file header is not one to move.
-/

namespace Provenance

/-!
## Numbers replaced

One number of the file is written over by another, at a place of the same width. The number is read
back, and a number elsewhere is what it was.
-/

namespace Bytes

/-- The file with the number at a place replaced. -/
def withNumber (data : Bytes) (order : ByteOrder) (start width n : Nat) : Bytes :=
  data.extract 0 start ++ (order.encode width n).toArray
    ++ data.extract (start + width) data.size

/-- On a file that is given as a list it is a matter of lists. -/
theorem withNumber_toArray (bytes : List UInt8) (order : ByteOrder) (start width n : Nat) :
    withNumber bytes.toArray order start width n
      = (bytes.extract 0 start ++ order.encode width n
          ++ bytes.extract (start + width) bytes.length).toArray := by
  simp only [withNumber, List.extract_toArray, List.append_toArray, List.size_toArray]

/-- A part of a file has the bytes before its end, as far as the file goes. -/
theorem getElem?_extract (data : Bytes) (first last i : Nat) :
    (data.extract first last)[i]? = if first + i < last then data[first + i]? else none := by
  rw [Array.getElem?_extract]
  by_cases hsize : first + i < data.size
  · exact if_congr (by omega) rfl rfl
  · rw [Array.getElem?_eq_none (Nat.not_lt.mp hsize), ite_self, ite_self]

/-- Files with the same bytes between two places have the same part there. -/
theorem extract_congr {data other : Bytes} {first last : Nat}
    (h : ∀ i, first ≤ i → i < last → other[i]? = data[i]?) :
    other.extract first last = data.extract first last := by
  apply Array.ext_getElem?
  intro i
  rw [getElem?_extract, getElem?_extract]
  split
  · next hi => exact h _ (Nat.le_add_right _ _) hi
  · rfl

theorem number_congr {data other : Bytes} (order : ByteOrder) {place width : Nat}
    (h : ∀ i, place ≤ i → i < place + width → other[i]? = data[i]?) :
    other.number order place width = data.number order place width := by
  rw [number, number, extract_congr h]

section WithNumber

variable {data : Bytes} {order : ByteOrder} {start width n : Nat}

theorem size_withNumber (hsize : start + width ≤ data.size) :
    (data.withNumber order start width n).size = data.size := by
  simp only [withNumber, Array.size_append, Array.size_extract, List.size_toArray,
    ByteOrder.length_encode]
  omega

/-- The bytes before and behind the number stay. -/
theorem getElem?_withNumber_of_outside (hsize : start + width ≤ data.size) {i : Nat}
    (hi : i < start ∨ start + width ≤ i) :
    (data.withNumber order start width n)[i]? = data[i]? := by
  have hfront : (data.extract 0 start).size = start := by
    rw [Array.size_extract]
    omega
  -- in front of the number, at it, or behind it
  rw [withNumber, Array.append_assoc, Array.getElem?_append, hfront]
  rcases hi with hi | hi
  · rw [if_pos hi, getElem?_extract, Nat.zero_add, if_pos hi]
  · rw [if_neg (by omega), Array.getElem?_append, List.size_toArray, ByteOrder.length_encode,
      if_neg (by omega), getElem?_extract]
    have hplace : start + width + (i - start - width) = i := by omega
    rw [hplace]
    by_cases hlast : i < data.size
    · rw [if_pos hlast]
    · rw [if_neg hlast, Array.getElem?_eq_none (Nat.not_lt.mp hlast)]

/-- A number that lies apart from the replaced one stays. -/
theorem number_withNumber_of_outside (hsize : start + width ≤ data.size) {place count : Nat}
    (hplace : place + count ≤ start ∨ start + width ≤ place) :
    (data.withNumber order start width n).number order place count
      = data.number order place count :=
  number_congr order fun i _ _ => getElem?_withNumber_of_outside hsize (by omega)

/-- A number that fits is read back. -/
theorem number_withNumber (hsize : start + width ≤ data.size) (hn : n < byteSpan width) :
    (data.withNumber order start width n).number order start width = n := by
  refine (number_eq_iff_holdsAt (by rwa [size_withNumber hsize]) hn).mpr ?_
  have hheld := holdsAt_append (data.extract 0 start).toList (order.encode width n)
    (data.extract (start + width) data.size).toList
  -- the digits stand between the bytes in front and those behind
  rw [Array.length_toList, Array.size_extract, Nat.sub_zero, Nat.min_eq_left (by omega)] at hheld
  rwa [← List.append_toArray, ← List.append_toArray, Array.toArray_toList,
    Array.toArray_toList] at hheld

end WithNumber

end Bytes

namespace Elf

/-! ## Moved numbers -/

section Places

variable (data : Bytes) (fileClass : FileClass) (order : ByteOrder)

/-- The place of the size in the first section header. The link stands right behind it. -/
def firstSizePlace : Nat := tableStart data fileClass order + 8 + 3 * fileClass.width

/-- The place of the link in the first section header. -/
def firstLinkPlace : Nat := tableStart data fileClass order + 8 + 4 * fileClass.width

/-- The size in the first section header. -/
def firstSize : Nat := data.number order (firstSizePlace data fileClass order) fileClass.width

/-- The link in the first section header. -/
def firstLink : Nat := data.number order (firstLinkPlace data fileClass order) 4

/-- The file with the number of sections moved into the first section header. -/
def countMoved : Bytes :=
  (data.withNumber order (36 + 3 * fileClass.width) 2 0).withNumber order
    (firstSizePlace data fileClass order) fileClass.width (headerCount data fileClass order)

/-- The file with the number of the section of the names moved into the first section header. -/
def namesMoved : Bytes :=
  (data.withNumber order (38 + 3 * fileClass.width) 2 0xFFFF).withNumber order
    (firstLinkPlace data fileClass order) 4 (headerNames data fileClass order)

/-- The file with one of the numbers moved, or both. -/
def renumbered (count names : Bool) : Bytes :=
  let counted := if count then countMoved data fileClass order else data
  if names then namesMoved counted fileClass order else counted

/-- The place of the first of all names in the file. -/
def namesStart : Nat :=
  data.number order (sectionPlace data fileClass order (namesNumber data fileClass order) + 8
    + 2 * fileClass.width) fileClass.width

/-- The place behind all names. -/
def namesEnd : Nat :=
  namesStart data fileClass order
    + data.number order (sectionPlace data fileClass order (namesNumber data fileClass order) + 8
        + 3 * fileClass.width) fileClass.width

/-- The names share no byte with the file header nor with the first section header. There may be
none. -/
def NamesApart : Prop :=
  namesNumber data fileClass order = 0
    ∨ namesEnd data fileClass order ≤ namesStart data fileClass order
    ∨ (fileClass.headerSize ≤ namesStart data fileClass order
      ∧ (namesEnd data fileClass order ≤ tableStart data fileClass order
        ∨ tableStart data fileClass order + fileClass.sectionSize
            ≤ namesStart data fileClass order))

/-- Whether the names are apart can be computed. -/
instance : Decidable (NamesApart data fileClass order) := by
  unfold NamesApart
  infer_instance

/-- One of the bytes that are written when numbers are moved. -/
def IsMoved (i : Nat) : Prop :=
  (36 + 3 * fileClass.width ≤ i ∧ i < 40 + 3 * fileClass.width)
    ∨ (firstSizePlace data fileClass order ≤ i ∧ i < firstLinkPlace data fileClass order + 4)

end Places

/-- Two files have the same bytes, but for those that are written when numbers are moved. -/
structure SameElsewhere (data other : Bytes) (fileClass : FileClass) (order : ByteOrder) :
    Prop where
  size : other.size = data.size
  same : ∀ i, ¬ IsMoved data fileClass order i → other[i]? = data[i]?

/-- Two files have the same numbers of sections and of names, be they moved or not. -/
structure Renumbered (data other : Bytes) (fileClass : FileClass) (order : ByteOrder) : Prop
    extends SameElsewhere data other fileClass order where
  total : sectionTotal other fileClass order = sectionTotal data fileClass order
  names : namesNumber other fileClass order = namesNumber data fileClass order

section Moved

variable {data other : Bytes} {fileClass : FileClass} {order : ByteOrder}

/-!
## What stays the same

A place that is apart from the four fields holds the same bytes in both files.
-/

namespace SameElsewhere

variable (h : SameElsewhere data other fileClass order)

include h

/-- A number is the same if it lies apart from the two pairs of fields. -/
theorem number_eq {place width : Nat}
    (hheader : place + width ≤ 36 + 3 * fileClass.width ∨ 40 + 3 * fileClass.width ≤ place)
    (htable : place + width ≤ firstSizePlace data fileClass order
      ∨ firstLinkPlace data fileClass order + 4 ≤ place) :
    other.number order place width = data.number order place width := by
  refine Bytes.number_congr order fun i hfirst hlast => h.same i ?_
  rintro (⟨hle, hlt⟩ | ⟨hle, hlt⟩) <;> omega

variable (hbehind : fileClass.headerSize ≤ tableStart data fileClass order)

include hbehind

-- The section table starts behind the file header, so that the fields of the first section header
-- are none of the file header. Before anything is known about the table, the file header has to
-- tell its place.

theorem tableStart_eq : tableStart other fileClass order = tableStart data fileClass order := by
  rw [fileClass.headerSize_eq] at hbehind
  exact h.number_eq (.inl (by omega)) (.inl (by rw [firstSizePlace]; omega))

theorem firstSizePlace_eq :
    firstSizePlace other fileClass order = firstSizePlace data fileClass order := by
  rw [firstSizePlace, firstSizePlace, h.tableStart_eq hbehind]

theorem firstLinkPlace_eq :
    firstLinkPlace other fileClass order = firstLinkPlace data fileClass order := by
  rw [firstLinkPlace, firstLinkPlace, h.tableStart_eq hbehind]

theorem stride_eq : stride other fileClass order = stride data fileClass order := by
  rw [fileClass.headerSize_eq] at hbehind
  exact h.number_eq (.inl (by omega)) (.inl (by rw [firstSizePlace]; omega))

theorem sectionPlace_eq (i : Nat) :
    sectionPlace other fileClass order i = sectionPlace data fileClass order i := by
  rw [sectionPlace, sectionPlace, h.tableStart_eq hbehind, h.stride_eq hbehind]

/-- The file header is the same but for the two numbers. -/
theorem headerIn_eq (osAbi : Int) :
    headerIn other ⟨fileClass, order, osAbi⟩
      = { headerIn data ⟨fileClass, order, osAbi⟩ with
          sectionHeaderCount := headerCount other fileClass order
          nameTableIndex := headerNames other fileClass order } := by
  rw [fileClass.headerSize_eq] at hbehind
  have hfirst : firstSizePlace data fileClass order
      = tableStart data fileClass order + 8 + 3 * fileClass.width := rfl
  have hident : other.extract 0 16 = data.extract 0 16 := by
    refine Bytes.extract_congr fun i _ hi => h.same i ?_
    rintro (⟨hle, -⟩ | ⟨hle, -⟩) <;> omega
  -- each field of the header is a number of its own, and only two of them are written
  simp (disch := omega) only [headerIn, tableStart, stride, headerCount, headerNames, hident,
    h.number_eq]

/-- The first section header is the same but for its size and its link. -/
theorem sectionAt_first_eq :
    sectionAt other fileClass order (tableStart data fileClass order)
      = { sectionAt data fileClass order (tableStart data fileClass order) with
          size := firstSize other fileClass order
          link := firstLink other fileClass order } := by
  have hheader := fileClass.headerSize_eq
  have hsize : firstSizePlace data fileClass order
      = tableStart data fileClass order + 8 + 3 * fileClass.width := rfl
  have hlink : firstLinkPlace data fileClass order
      = tableStart data fileClass order + 8 + 4 * fileClass.width := rfl
  rw [firstSize, firstLink, h.firstSizePlace_eq hbehind, h.firstLinkPlace_eq hbehind, hsize, hlink]
  -- the fields in front of the size and behind the link
  simp (disch := omega) only [sectionAt, h.number_eq]

/-- A number behind the first section header is the same. -/
theorem number_behind_eq {place width : Nat}
    (hplace : tableStart data fileClass order + fileClass.sectionSize ≤ place) :
    other.number order place width = data.number order place width := by
  have hheader := fileClass.headerSize_eq
  rw [fileClass.sectionSize_eq] at hplace
  refine h.number_eq (.inr (by omega)) (.inr ?_)
  rw [firstLinkPlace]
  omega

theorem sectionAt_behind_eq {place : Nat}
    (hplace : tableStart data fileClass order + fileClass.sectionSize ≤ place) :
    sectionAt other fileClass order place = sectionAt data fileClass order place := by
  simp (disch := omega) only [sectionAt, h.number_behind_eq hbehind]

/-- The identification bytes are the same. -/
theorem identification_eq {i : Nat} (hi : i < 16) : other[i]? = data[i]? := by
  rw [fileClass.headerSize_eq] at hbehind
  refine h.same i ?_
  rintro (⟨hle, -⟩ | ⟨hle, -⟩)
  · omega
  · rw [firstSizePlace] at hle
    omega

/-- The identification is that of the same class and the same byte order. -/
theorem identifies (hident : Identifies data fileClass order) :
    Identifies other fileClass order where
  size := h.size.symm ▸ hident.size
  mark := by
    have hmark := hident.mark
    rw [Bytes.HoldsAt] at hmark ⊢
    rwa [h.size, Bytes.extract_congr fun i _ hi => h.identification_eq hbehind
      (Nat.lt_trans hi (by decide))]
  fileClass := (h.identification_eq hbehind (by decide)).trans hident.fileClass
  encoding := (h.identification_eq hbehind (by decide)).trans hident.encoding
  version := (h.identification_eq hbehind (by decide)).trans hident.version

end SameElsewhere

/-! ## What the moved numbers tell -/

/-- The number of sections, with the first size for what the first section header tells. -/
theorem sectionTotal_eq (data : Bytes) (fileClass : FileClass) (order : ByteOrder) :
    sectionTotal data fileClass order =
      if headerCount data fileClass order = 0 then firstSize data fileClass order
      else headerCount data fileClass order := rfl

/-- The number of the section of the names, with the first link for what the first section header
tells. -/
theorem namesNumber_eq (data : Bytes) (fileClass : FileClass) (order : ByteOrder) :
    namesNumber data fileClass order =
      if headerNames data fileClass order = 0xFFFF then firstLink data fileClass order
      else headerNames data fileClass order := rfl

/-- The name of a section, with the names between their start and their end. -/
theorem nameAt_eq (data : Bytes) (fileClass : FileClass) (order : ByteOrder) (i : Nat) :
    nameAt data fileClass order i =
      if namesNumber data fileClass order = 0 then ""
      else asciiText ((data.extract
        (namesStart data fileClass order
          + data.number order (sectionPlace data fileClass order i) 4)
        (namesEnd data fileClass order)).toList.takeWhile (· ≠ 0)) := rfl

/-- Only the first section header starts before the end of the first section header. -/
theorem le_sectionPlace (hstride : stride data fileClass order = fileClass.sectionSize) {i : Nat}
    (hi : i ≠ 0) :
    tableStart data fileClass order + fileClass.sectionSize
      ≤ sectionPlace data fileClass order i := by
  have hmul := Nat.mul_le_mul_right fileClass.sectionSize (Nat.one_le_iff_ne_zero.mpr hi)
  rw [sectionPlace, hstride]
  omega

/-- No byte of the names is one that is written when numbers are moved. -/
theorem not_isMoved_of_names (hnames : namesNumber data fileClass order ≠ 0)
    (hapart : NamesApart data fileClass order) {i : Nat}
    (hfirst : namesStart data fileClass order ≤ i) (hlast : i < namesEnd data fileClass order) :
    ¬ IsMoved data fileClass order i := by
  have hheader := fileClass.headerSize_eq
  have hsection := fileClass.sectionSize_eq
  -- there are no names at all, or they lie apart from both headers
  obtain hempty | ⟨hbehind, htable⟩ := hapart.resolve_left hnames
  · omega
  · rw [IsMoved, firstSizePlace, firstLinkPlace]
    omega

/-- A section with another size and another link in its header. -/
def Section.withSizeAndLink (s : Section) (size link : Int) : Section :=
  { s with header := { s.header with size := size, link := link } }

namespace Renumbered

section Step

variable {third : Bytes} (h : Renumbered data other fileClass order)
  (hbehind : fileClass.headerSize ≤ tableStart data fileClass order)

include h hbehind

/-- Numbers that are moved after others have been moved are the same numbers still. -/
theorem trans (h' : Renumbered other third fileClass order) :
    Renumbered data third fileClass order where
  size := h'.size.trans h.size
  same i hi := by
    -- the bytes that are written are at the same places in either file
    refine (h'.same i fun hmoved => hi ?_).trans (h.same i hi)
    rwa [IsMoved, h.firstSizePlace_eq hbehind, h.firstLinkPlace_eq hbehind] at hmoved
  total := h'.total.trans h.total
  names := h'.names.trans h.names

variable (hstride : stride data fileClass order = fileClass.sectionSize)

include hstride

-- The section of the names is one behind the first, so that its header tells the same.

theorem namesStart_eq (hnames : namesNumber data fileClass order ≠ 0) :
    namesStart other fileClass order = namesStart data fileClass order := by
  have hplace := le_sectionPlace hstride hnames
  rw [namesStart, namesStart, h.names, h.sectionPlace_eq hbehind,
    h.number_behind_eq hbehind (by omega)]

theorem namesEnd_eq (hnames : namesNumber data fileClass order ≠ 0) :
    namesEnd other fileClass order = namesEnd data fileClass order := by
  have hplace := le_sectionPlace hstride hnames
  rw [namesEnd, namesEnd, h.namesStart_eq hbehind hstride hnames, h.names,
    h.sectionPlace_eq hbehind, h.number_behind_eq hbehind (by omega)]

/-- The section headers fit in the other file as they do in the first. -/
theorem headersFit (hfit : HeadersFit data fileClass order) :
    HeadersFit other fileClass order where
  count := h.total.symm ▸ hfit.count
  names := by
    rw [h.names, h.total]
    exact hfit.names
  within := by
    rw [h.tableStart_eq hbehind, h.total, h.size]
    exact hfit.within
  strings := by
    rw [h.names, h.sectionPlace_eq hbehind]
    by_cases hnames : namesNumber data fileClass order = 0
    · exact .inl hnames
    -- the section of the names is not the first, since its number is not zero
    · have hplace := le_sectionPlace hstride hnames
      rw [h.number_behind_eq hbehind (by omega)]
      exact hfit.strings

/-- The name of a section is the same. -/
theorem nameAt_eq (hapart : NamesApart data fileClass order) (i : Nat) :
    nameAt other fileClass order i = nameAt data fileClass order i := by
  rw [Elf.nameAt_eq, Elf.nameAt_eq, h.names]
  split
  · rfl
  next hnames =>
  -- the place of the name in its section is not one of the fields that are written
  have hname : other.number order (sectionPlace data fileClass order i) 4
      = data.number order (sectionPlace data fileClass order i) 4 := by
    by_cases hi : i = 0
    · have hheader := fileClass.headerSize_eq
      rw [hi, sectionPlace_zero]
      refine h.number_eq (.inr (by omega)) (.inl ?_)
      rw [firstSizePlace]
      omega
    · exact h.number_behind_eq hbehind (le_sectionPlace hstride hi)
  rw [h.sectionPlace_eq hbehind, h.namesStart_eq hbehind hstride hnames,
    h.namesEnd_eq hbehind hstride hnames, hname,
    Bytes.extract_congr fun j hfirst hlast => h.same j
      (not_isMoved_of_names hnames hapart (Nat.le_of_add_right_le hfirst) hlast)]

/-- A section is the same, but for the size and the link of the first one. -/
theorem sectionIn_eq (hapart : NamesApart data fileClass order) (i : Nat) :
    sectionIn other fileClass order i =
      if i = 0 then (sectionIn data fileClass order i).withSizeAndLink
        (firstSize other fileClass order) (firstLink other fileClass order)
      else sectionIn data fileClass order i := by
  unfold sectionIn
  rw [h.nameAt_eq hbehind hstride hapart, h.sectionPlace_eq hbehind]
  -- the first section header has the moved numbers in it, and the others have none
  split
  next hi =>
    rw [hi, sectionPlace_zero, h.sectionAt_first_eq hbehind]
    rfl
  next hi => rw [h.sectionAt_behind_eq hbehind (le_sectionPlace hstride hi)]

end Step

/-- The other file has a section table that can be read. -/
theorem hasSections (h : Renumbered data other fileClass order)
    (hbehind : fileClass.headerSize ≤ tableStart data fileClass order)
    (hsections : HasSections data fileClass order) : HasSections other fileClass order where
  ident := h.identifies hbehind hsections.ident
  header := h.size.symm ▸ hsections.header
  table := by
    -- a table that starts behind the file header does not start at zero
    have hstart : tableStart data fileClass order ≠ 0 := by
      rw [fileClass.headerSize_eq] at hbehind
      omega
    obtain ⟨hstride, hfirst, hheaders⟩ := hsections.table.resolve_left hstart
    refine .inr ⟨(h.stride_eq hbehind).trans hstride, ?_, ?_⟩
    · rwa [h.tableStart_eq hbehind, h.size]
    · rw [h.total]
      exact hheaders.imp id (h.headersFit hbehind hstride)

/-- The sections are the same, but for the size and the link of the first one. -/
theorem sectionsIn_eq (h : Renumbered data other fileClass order)
    (hbehind : fileClass.headerSize ≤ tableStart data fileClass order)
    (hsections : HasSections data fileClass order) (hapart : NamesApart data fileClass order)
    {change : Section → Section}
    (hchange : change (sectionIn data fileClass order 0)
      = (sectionIn data fileClass order 0).withSizeAndLink (firstSize other fileClass order)
          (firstLink other fileClass order)) :
    sectionsIn other fileClass order = (sectionsIn data fileClass order).modify 0 change := by
  have hstart : tableStart data fileClass order ≠ 0 := by
    rw [fileClass.headerSize_eq] at hbehind
    omega
  have hstride := (hsections.table.resolve_left hstart).stride
  rw [sectionsIn, sectionsIn, h.tableStart_eq hbehind, if_neg hstart, if_neg hstart, h.total]
  -- section by section, as many as before
  apply List.ext_getElem
  · simp
  · intro i _ _
    simp only [List.getElem_map, List.getElem_range, List.getElem_modify]
    rw [h.sectionIn_eq hbehind hstride hapart]
    cases i with
    | zero => exact hchange.symm
    | succ i => rfl

end Renumbered

/-!
## Moving the numbers

First the count is moved, then the number of the section of the names. Neither writes over what the
other has written, so that the two steps compose.
-/

section Moving

variable (hsections : HasSections data fileClass order)
  (hbehind : fileClass.headerSize ≤ tableStart data fileClass order)

include hsections hbehind

/-- The fields that are written are in the file, those of the section header behind those of the
file header. -/
theorem moved_places_within :
    40 + 3 * fileClass.width ≤ firstSizePlace data fileClass order
      ∧ firstSizePlace data fileClass order + fileClass.width = firstLinkPlace data fileClass order
      ∧ firstLinkPlace data fileClass order + 4 ≤ data.size := by
  rw [fileClass.headerSize_eq] at hbehind
  have hfirst := (hsections.table.resolve_left (by omega)).first
  rw [fileClass.sectionSize_eq] at hfirst
  rw [firstLinkPlace, firstSizePlace]
  omega

/-- A number of the file header and a number of the first section header are written. -/
theorem sameElsewhere_withNumber {place n place' width' n' : Nat}
    (hplace : 36 + 3 * fileClass.width ≤ place ∧ place + 2 ≤ 40 + 3 * fileClass.width)
    (hplace' : firstSizePlace data fileClass order ≤ place'
      ∧ place' + width' ≤ firstLinkPlace data fileClass order + 4) :
    SameElsewhere data ((data.withNumber order place 2 n).withNumber order place' width' n')
      fileClass order := by
  obtain ⟨hheader, hfields, hsize⟩ := moved_places_within hsections hbehind
  have hwritten : (data.withNumber order place 2 n).size = data.size :=
    Bytes.size_withNumber (by omega)
  -- first the number of the file header, then that of the first section header
  constructor
  · rw [Bytes.size_withNumber (by omega), hwritten]
  · intro i hi
    rw [IsMoved] at hi
    rw [Bytes.getElem?_withNumber_of_outside (by omega) (by omega),
      Bytes.getElem?_withNumber_of_outside (by omega) (by omega)]

theorem countMoved_sameElsewhere :
    SameElsewhere data (countMoved data fileClass order) fileClass order := by
  obtain ⟨-, hfields, -⟩ := moved_places_within hsections hbehind
  exact sameElsewhere_withNumber hsections hbehind (by omega) (by omega)

theorem namesMoved_sameElsewhere :
    SameElsewhere data (namesMoved data fileClass order) fileClass order := by
  obtain ⟨-, hfields, -⟩ := moved_places_within hsections hbehind
  exact sameElsewhere_withNumber hsections hbehind (by omega) (by omega)

/-- The number of sections is in the first section header, behind a zero in the file header. -/
theorem countMoved_fields :
    headerCount (countMoved data fileClass order) fileClass order = 0
      ∧ firstSize (countMoved data fileClass order) fileClass order
        = headerCount data fileClass order
      ∧ headerNames (countMoved data fileClass order) fileClass order
        = headerNames data fileClass order
      ∧ firstLink (countMoved data fileClass order) fileClass order
        = firstLink data fileClass order := by
  -- the four fields lie apart, so that each is either the written one or the old one
  obtain ⟨hheader, hfields, hsize⟩ := moved_places_within hsections hbehind
  have hsame := countMoved_sameElsewhere hsections hbehind
  have hwritten : (data.withNumber order (36 + 3 * fileClass.width) 2 0).size = data.size :=
    Bytes.size_withNumber (by omega)
  have hspan : byteSpan 2 = 65536 := rfl
  -- two bytes fit in an address
  have hcount : headerCount data fileClass order < byteSpan fileClass.width := by
    have hlt : headerCount data fileClass order < byteSpan 2 := Bytes.number_lt _ _ (by omega)
    refine Nat.lt_of_lt_of_le hlt ?_
    cases fileClass <;> decide
  rw [firstSize, firstLink, hsame.firstSizePlace_eq hbehind, hsame.firstLinkPlace_eq hbehind,
    headerCount, headerNames, countMoved]
  simp (disch := omega) only [Bytes.number_withNumber, Bytes.number_withNumber_of_outside,
    true_and]
  exact ⟨rfl, rfl⟩

/-- The number of the section of the names is in the first section header, behind 0xFFFF in the file
header. -/
theorem namesMoved_fields :
    headerNames (namesMoved data fileClass order) fileClass order = 0xFFFF
      ∧ firstLink (namesMoved data fileClass order) fileClass order
        = headerNames data fileClass order
      ∧ headerCount (namesMoved data fileClass order) fileClass order
        = headerCount data fileClass order
      ∧ firstSize (namesMoved data fileClass order) fileClass order
        = firstSize data fileClass order := by
  -- the four fields lie apart here as well
  obtain ⟨hheader, hfields, hsize⟩ := moved_places_within hsections hbehind
  have hsame := namesMoved_sameElsewhere hsections hbehind
  have hwritten : (data.withNumber order (38 + 3 * fileClass.width) 2 0xFFFF).size = data.size :=
    Bytes.size_withNumber (by omega)
  have hspan : byteSpan 2 = 65536 := rfl
  have hnames : headerNames data fileClass order < byteSpan 4 :=
    Nat.lt_of_lt_of_le (Bytes.number_lt _ _ (by omega)) (by decide)
  rw [firstSize, firstLink, hsame.firstSizePlace_eq hbehind, hsame.firstLinkPlace_eq hbehind,
    headerCount, headerNames, namesMoved]
  simp (disch := omega) only [Bytes.number_withNumber, Bytes.number_withNumber_of_outside,
    true_and]
  exact ⟨rfl, rfl⟩

/-- A number of sections that is not zero can be moved, since the first size counts only if it is
zero. -/
theorem countMoved_renumbered (hcount : headerCount data fileClass order ≠ 0) :
    Renumbered data (countMoved data fileClass order) fileClass order := by
  obtain ⟨hzero, hsize, hnames, hlink⟩ := countMoved_fields hsections hbehind
  refine ⟨countMoved_sameElsewhere hsections hbehind, ?_, ?_⟩
  · rw [sectionTotal_eq, sectionTotal_eq, if_pos hzero, if_neg hcount, hsize]
  · rw [namesNumber_eq, namesNumber_eq, hnames, hlink]

/-- A number of the names that is not 0xFFFF can be moved, since the link counts only if it is. -/
theorem namesMoved_renumbered (hnames : headerNames data fileClass order ≠ 0xFFFF) :
    Renumbered data (namesMoved data fileClass order) fileClass order := by
  obtain ⟨hextended, hlink, hcount, hsize⟩ := namesMoved_fields hsections hbehind
  refine ⟨namesMoved_sameElsewhere hsections hbehind, ?_, ?_⟩
  · rw [sectionTotal_eq, sectionTotal_eq, hcount, hsize]
  · rw [namesNumber_eq, namesNumber_eq, if_pos hextended, if_neg hnames, hlink]

/-- The four fields of a file with moved numbers. -/
structure FieldsMoved (data other : Bytes) (fileClass : FileClass) (order : ByteOrder)
    (count names : Bool) : Prop where
  headerCount : headerCount other fileClass order
    = if count then 0 else headerCount data fileClass order
  headerNames : headerNames other fileClass order
    = if names then 0xFFFF else headerNames data fileClass order
  firstSize : firstSize other fileClass order
    = if count then Elf.headerCount data fileClass order else firstSize data fileClass order
  firstLink : firstLink other fileClass order
    = if names then Elf.headerNames data fileClass order else firstLink data fileClass order

/-- Whichever numbers are moved, one after the other, the file is one that differs in them alone. -/
theorem renumbered_renumbered (hcount : headerCount data fileClass order ≠ 0) (count names : Bool)
    (hnames : names = true → headerNames data fileClass order ≠ 0xFFFF) :
    Renumbered data (renumbered data fileClass order count names) fileClass order
      ∧ FieldsMoved data (renumbered data fileClass order count names) fileClass order count
          names := by
  -- the file after the first of the two numbers, be it moved or not
  have hcounted : ∃ counted, counted = (if count then countMoved data fileClass order else data)
      ∧ Renumbered data counted fileClass order
      ∧ FieldsMoved data counted fileClass order count false := by
    cases count with
    | false => exact ⟨_, rfl, ⟨⟨rfl, fun _ _ => rfl⟩, rfl, rfl⟩, rfl, rfl, rfl, rfl⟩
    | true =>
      obtain ⟨hzero, hsize, hnames, hlink⟩ := countMoved_fields hsections hbehind
      exact ⟨_, rfl, countMoved_renumbered hsections hbehind hcount, hzero, hnames, hsize, hlink⟩
  obtain ⟨counted, hdef, hsame, hfields⟩ := hcounted
  rw [renumbered, ← hdef]
  cases names with
  | false => exact ⟨hsame, hfields⟩
  | true =>
    -- the file with the first number moved is again one to move the second number in
    have hsections' := hsame.hasSections hbehind hsections
    have hbehind' := hbehind
    rw [← hsame.tableStart_eq hbehind] at hbehind'
    have hnames' : headerNames counted fileClass order ≠ 0xFFFF := by
      rw [hfields.headerNames]
      exact hnames rfl
    obtain ⟨hextended, hlink, hcount', hsize⟩ := namesMoved_fields hsections' hbehind'
    exact ⟨hsame.trans hbehind (namesMoved_renumbered hsections' hbehind' hnames'),
      hcount'.trans hfields.headerCount, hextended, hsize.trans hfields.firstSize,
      hlink.trans hfields.headerNames⟩

end Moving

end Moved

/-! ## Reading the file again -/

/-- Moving the number of sections, that of the section of the names or both into the first section
header makes a file that is read as well. The two numbers of the file header apart, its header is
the same, and so are the sections, with their number and their names: the size and the link of the
first one are the moved numbers. The section table has to start behind the file header and the names
apart from both headers, so that nothing else is overwritten. The number of the section of the names
is 0xFFFF if it has been moved before, and is then not moved again. -/
theorem renumbered_read_alike {data : Bytes} {img : Image} (h : Image.ofBytes data = .ok img)
    (hcount : 1 ≤ headerCount data img.ident.fileClass img.ident.order)
    (hbehind : img.ident.fileClass.headerSize
      ≤ tableStart data img.ident.fileClass img.ident.order)
    (hapart : NamesApart data img.ident.fileClass img.ident.order) (count names : Bool)
    (hnames : names = true → headerNames data img.ident.fileClass img.ident.order ≠ 0xFFFF) :
    ∃ other,
      Image.ofBytes (renumbered data img.ident.fileClass img.ident.order count names) = .ok other
        ∧ other.ident = img.ident
        ∧ other.header = { img.header with
            sectionHeaderCount := if count then 0 else img.header.sectionHeaderCount
            nameTableIndex := if names then 0xFFFF else img.header.nameTableIndex }
        ∧ other.sections.length = img.sections.length
        ∧ other.sectionNames = img.sectionNames
        ∧ other.sections = img.sections.modify 0 fun s => s.withSizeAndLink
            (if count then img.header.sectionHeaderCount else s.header.size)
            (if names then img.header.nameTableIndex else s.header.link) := by
  obtain ⟨hsections, hosAbi, himage⟩ := ofBytes_eq_ok_iff.mp h
  have hheader : img.header = headerIn data img.ident := congrArg (·.header) himage
  have hlisted : img.sections = sectionsIn data img.ident.fileClass img.ident.order :=
    congrArg (·.sections) himage
  obtain ⟨hsame, hfields⟩ := renumbered_renumbered hsections hbehind (by omega) count names hnames
  generalize renumbered data img.ident.fileClass img.ident.order count names = moved at *
  -- the moved file is identified alike, and its section table fits as before
  have hread : Image.ofBytes moved = .ok ⟨moved, img.ident, headerIn moved img.ident,
      sectionsIn moved img.ident.fileClass img.ident.order⟩ := by
    refine ofBytes_eq_ok_iff.mpr ⟨hsame.hasSections hbehind hsections, ?_, rfl⟩
    rw [← hosAbi, Array.getD_eq_getD_getElem?, Array.getD_eq_getD_getElem?,
      hsame.identification_eq hbehind (by decide)]
  -- the sections are listed anew, with the moved numbers in the first of them
  have hchanged : sectionsIn moved img.ident.fileClass img.ident.order
      = img.sections.modify 0 fun s => s.withSizeAndLink
          (if count then img.header.sectionHeaderCount else s.header.size)
          (if names then img.header.nameTableIndex else s.header.link) := by
    rw [hlisted]
    refine hsame.sectionsIn_eq hbehind hsections hapart ?_
    rw [hfields.firstSize, hfields.firstLink, hheader, sectionIn, sectionPlace_zero]
    cases count <;> cases names <;> rfl
  refine ⟨_, hread, rfl, ?_, ?_, ?_, hchanged⟩
  -- the header: two fields are what was written, and the others have not been touched
  · rw [hheader]
    refine (hsame.headerIn_eq hbehind img.ident.osAbi).trans ?_
    rw [hfields.headerCount, hfields.headerNames]
    cases count <;> cases names <;> rfl
  · exact (congrArg List.length hchanged).trans (List.length_modify ..)
  -- the names: a section keeps its name if its size and its link change
  · refine (congrArg (List.map (·.name)) hchanged).trans ?_
    rw [Image.sectionNames]
    cases img.sections <;> rfl

/-- With both numbers moved the file of two sections is read with the same names. Its first section
has the number of sections for a size and that of the section of the names for a link. -/
theorem namedFile_renumbered :
    ∃ img other, Image.ofBytes namedFile = .ok img
      ∧ Image.ofBytes (renumbered namedFile .class32 .little true true) = .ok other
      ∧ other.header.sectionHeaderCount = 0 ∧ other.header.nameTableIndex = 0xFFFF
      ∧ other.sectionNames = img.sectionNames ∧ img.sectionNames = ["", ".names"]
      ∧ other.sections.map (fun s => (s.header.size, s.header.link)) = [(2, 1), (8, 0)] := by
  -- what the theorem asks for is computed on the file of two sections
  obtain ⟨img, hread, hfound⟩ := exists_ok_of_any (x := Image.ofBytes namedFile)
    (p := fun img => decide (img.ident.fileClass = .class32 ∧ img.ident.order = .little
      ∧ img.sectionNames = ["", ".names"]
      ∧ (img.sections.modify 0 fun s => s.withSizeAndLink img.header.sectionHeaderCount
          img.header.nameTableIndex).map (fun s => (s.header.size, s.header.link))
        = [(2, 1), (8, 0)])) (by decide +kernel)
  obtain ⟨hclass, horder, hnames, hnumbers⟩ := of_decide_eq_true hfound
  have hfits : 1 ≤ headerCount namedFile .class32 .little
      ∧ FileClass.class32.headerSize ≤ tableStart namedFile .class32 .little
      ∧ NamesApart namedFile .class32 .little
      ∧ headerNames namedFile .class32 .little ≠ 0xFFFF := by
    decide +kernel
  obtain ⟨hcount, hbehind, hapart, hmovable⟩ := hfits
  have hmain := renumbered_read_alike hread (by rwa [hclass, horder])
    (by rwa [hclass, horder]) (by rwa [hclass, horder]) true true fun _ => by rwa [hclass, horder]
  rw [hclass, horder] at hmain
  obtain ⟨other, hother, -, hheader, -, hsame, hsections⟩ := hmain
  refine ⟨img, other, hread, hother, ?_, ?_, hsame, hnames, ?_⟩
  · rw [hheader]
    rfl
  · rw [hheader]
    rfl
  · rw [hsections]
    exact hnumbers

/-- The file of two sections with 0xFFFF for the number of the section of the names, which the link
of the first section tells. -/
def linkedFile (link : List UInt8) : Bytes :=
  let zeros := fun n => List.replicate n (0 : UInt8)
  let header := [0x7F, 0x45, 0x4C, 0x46, 1, 1, 1] ++ zeros 9 ++ [1, 0, 3, 0, 1, 0, 0, 0]
    ++ zeros 8 ++ [52, 0, 0, 0] ++ zeros 4 ++ [52, 0, 0, 0, 0, 0, 40, 0, 2, 0, 0xFF, 0xFF]
  let names := [1, 0, 0, 0] ++ [3, 0, 0, 0] ++ zeros 8 ++ [132, 0, 0, 0] ++ [8, 0, 0, 0]
    ++ zeros 8 ++ [1, 0, 0, 0] ++ zeros 4
  let strings := [0, 0x2E, 0x6E, 0x61, 0x6D, 0x65, 0x73, 0]
  (header ++ zeros 24 ++ link ++ zeros 12 ++ names ++ strings).toArray

/-- A file whose section of the names is told by the link of the first section has 0xFFFF in the
file header. If this is moved like the number of a section, it becomes the link, and the file is
refused for having no section of that number. -/
theorem namesMoved_twice_refused :
    ∃ data img, Image.ofBytes data = .ok img ∧ img.sectionNames = ["", ".names"]
      ∧ 1 ≤ headerCount data img.ident.fileClass img.ident.order
      ∧ headerNames data img.ident.fileClass img.ident.order = 0xFFFF
      ∧ img.ident.fileClass.headerSize
        ≤ tableStart data img.ident.fileClass img.ident.order
      ∧ NamesApart data img.ident.fileClass img.ident.order
      ∧ Image.ofBytes (renumbered data img.ident.fileClass img.ident.order false true)
        = .error (.nameTableIndex 0xFFFF) := by
  -- the file of two sections is read, with its names where the link says
  obtain ⟨img, hread, hfound⟩ := exists_ok_of_any (x := Image.ofBytes (linkedFile [1, 0, 0, 0]))
    (p := fun img => decide (img.ident.fileClass = .class32 ∧ img.ident.order = .little
      ∧ img.sectionNames = ["", ".names"])) (by decide +kernel)
  obtain ⟨hclass, horder, hnames⟩ := of_decide_eq_true hfound
  have hfits : 1 ≤ headerCount (linkedFile [1, 0, 0, 0]) .class32 .little
      ∧ headerNames (linkedFile [1, 0, 0, 0]) .class32 .little = 0xFFFF
      ∧ FileClass.class32.headerSize ≤ tableStart (linkedFile [1, 0, 0, 0]) .class32 .little
      ∧ NamesApart (linkedFile [1, 0, 0, 0]) .class32 .little
      ∧ firstLinkPlace (linkedFile [1, 0, 0, 0]) .class32 .little = 76 := by
    decide +kernel
  obtain ⟨hcount, hmoved, hbehind, hapart, hplace⟩ := hfits
  -- moving the number once more writes 0xFFFF over the link
  have hagain : renumbered (linkedFile [1, 0, 0, 0]) .class32 .little false true
      = linkedFile [0xFF, 0xFF, 0, 0] := by
    simp only [renumbered, Bool.false_eq_true, if_false, if_true]
    rw [namesMoved, hplace, hmoved, linkedFile, Bytes.withNumber_toArray,
      Bytes.withNumber_toArray]
    exact congrArg List.toArray (by decide +kernel)
  have hrefused : (Image.ofBytes (linkedFile [0xFF, 0xFF, 0, 0])).map (fun _ => ())
      = .error (.nameTableIndex 0xFFFF) := by
    decide +kernel
  refine ⟨_, img, hread, hnames, ?_⟩
  rw [hclass, horder, hagain]
  exact ⟨hcount, hmoved, hbehind, hapart, map_eq_error_iff.mp hrefused⟩

end Elf

end Provenance
