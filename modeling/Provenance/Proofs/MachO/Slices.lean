import Provenance.Proofs.MachO.Acceptance
import Provenance.Proofs.Walk

/-!
# Files that are universal binaries

Which files are universal binaries, told from the words of the architecture table and from the
images in the file, and what such a binary holds.

* `HasSlices` — a file has an architecture table, and each of its entries fits.
* `readEntry_eq_ok_iff` — one entry is read exactly when it fits, behind those read before it.
* `readSlices_eq_ok_iff` — so is a run of entries, by induction on their number. The entries already
  read are those of lower numbers, which is all that the search for duplicates looks at.
* `misread?_of_universal` — a file that is no universal binary is refused for a reason of its own.
* `universal_read_exactly_when_slices_fit` — the reader accepts these files and no other.
-/

namespace Provenance.MachO

/-!
## Entries at their places

An entry of the table is told from the numbers at its place, most significant byte first, and the
slice from the part of the file that the entry names.
-/

/-- The place of an entry of the architecture table. -/
def entryPlace (i : Nat) : Nat := 8 + 20 * i

section Entries

variable (data : Bytes) (i : Nat)

/-- How many entries the architecture table announces. -/
def archCount : Nat := data.number .big 4 4

/-- The CPU type that an entry names, with a sign. -/
def cpuTypeAt : Int := Word.i32.ofNat (data.number .big (entryPlace i) 4)

/-- The CPU subtype that an entry names, with a sign. -/
def cpuSubtypeAt : Int := Word.i32.ofNat (data.number .big (entryPlace i + 4) 4)

/-- Where the slice of an entry starts. -/
def sliceStart : Nat := data.number .big (entryPlace i + 8) 4

/-- How many bytes the slice of an entry takes. -/
def sliceSize : Nat := data.number .big (entryPlace i + 12) 4

/-- The entry of a number in the architecture table. -/
def archAt : Arch where
  cpuType := cpuTypeAt data i
  cpuSubtype := cpuSubtypeAt data i
  offset := sliceStart data i
  size := sliceSize data i
  alignment := data.number .big (entryPlace i + 16) 4

/-- The bytes of the slice that an entry stands for, cut out of the file. -/
def sliceBytes : Bytes := data.extract (sliceStart data i) (sliceStart data i + sliceSize data i)

/-- No entry of a lower number names the same processor, the slice lies in the file, and it is an
image for that processor. -/
structure EntryFits : Prop where
  fresh : ∀ j < i, (cpuTypeAt data j, cpuSubtypeAt data j) ≠ (cpuTypeAt data i, cpuSubtypeAt data i)
  within : sliceStart data i + sliceSize data i ≤ data.size
  image : ∃ img, Image.ofBytes (sliceBytes data i) = .ok img
    ∧ img.header.cpuType = cpuTypeAt data i

/-- A slice is what an entry stands for. -/
structure SliceOf (s : Slice) : Prop where
  arch : s.arch = archAt data i
  image : Image.ofBytes (sliceBytes data i) = .ok s.image

end Entries

/-- A file has the table of a universal binary, and each entry fits. -/
structure HasSlices (data : Bytes) : Prop where
  header : 8 ≤ data.size
  magic : data.number .big 0 4 = 0xCAFEBABE ∨ data.number .big 0 4 = 0xCAAEBABE
  count : archCount data ≤ 64
  table : 8 + 20 * archCount data ≤ data.size
  entries : ∀ i < archCount data, EntryFits data i

/-!
## One entry

Whether an entry is accepted depends on those in front of it, for no pair of processor type and
subtype may come twice. `ReadBefore` keeps what is known of them during the run.
-/

section Entry

variable {data : Bytes} {i : Nat}

/-- The record at the place of an entry is that entry. -/
theorem recordAt_arch (data : Bytes) (i : Nat) :
    Arch.codec.recordAt data (entryPlace i) = archAt data i := by
  -- the words of an entry stand one behind the other, and each is the number at its own place
  have hword : ∀ (w : Word) (skipped : Nat), skipped + w.width ≤ 20 →
      w.decode .big (((data.extract (entryPlace i) (entryPlace i + 20)).toList.drop
        skipped).take w.width) = w.ofNat (data.number .big (entryPlace i + skipped) w.width) :=
    fun w skipped hfits => w.decode_drop_take_ofNat .big data (entryPlace i) 20 skipped hfits
  simp only [Codec.recordAt, Arch.codec, Layout.decode, List.drop_drop]
  unfold archAt
  rw [Arch.mk.injEq]
  exact ⟨hword .i32 0 (by decide), hword .i32 4 (by decide), hword .u32 8 (by decide),
    hword .u32 12 (by decide), hword .u32 16 (by decide)⟩

/-- An entry is read if all its 20 bytes are in the file, and refused with its place if not. -/
theorem Arch.decode_entry (data : Bytes) (i : Nat) :
    Arch.decode data ((Universal.headerSize : Int) + i * Arch.codec.size) =
      if entryPlace i + 20 ≤ data.size then .ok (archAt data i)
      else .error (.archTooShort (entryPlace i)) := by
  have hplace : ((Universal.headerSize : Int) + i * Arch.codec.size) = (entryPlace i : Nat) := by
    have hheader : Universal.headerSize = 8 := rfl
    have hcodec : Arch.codec.size = 20 := rfl
    rw [hheader, hcodec]
    unfold entryPlace
    omega
  rw [hplace, Arch.decode, Codec.readOr_eq, recordAt_arch]
  rfl

/-- The slices that were read so far are those of the entries of lower numbers, the last one
first. -/
def ReadBefore (data : Bytes) (i : Nat) (before : List Slice) : Prop :=
  before.map (·.arch) = ((List.range i).map (archAt data)).reverse

theorem ReadBefore.zero (data : Bytes) : ReadBefore data 0 [] := rfl

/-- An entry that was read is the last one of those read before the next. -/
theorem ReadBefore.succ {before : List Slice} {s : Slice} (h : ReadBefore data i before)
    (hslice : SliceOf data i s) : ReadBefore data (i + 1) (s :: before) := by
  unfold ReadBefore at h ⊢
  rw [List.map_cons, h, hslice.arch, List.range_succ, List.map_append, List.reverse_append]
  rfl

/-- The reader looks for the processor of an entry among all entries of lower numbers. -/
theorem any_before_iff {before : List Slice} (h : ReadBefore data i before) :
    ((before.map (·.arch)).any fun b =>
        b.cpuType = (archAt data i).cpuType ∧ b.cpuSubtype = (archAt data i).cpuSubtype) = true ↔
      ∃ j < i, (cpuTypeAt data j, cpuSubtypeAt data j)
        = (cpuTypeAt data i, cpuSubtypeAt data i) := by
  rw [h, List.any_reverse, List.any_map, List.any_eq_true]
  simp only [List.mem_range, Function.comp_apply, decide_eq_true_eq, Prod.mk.injEq]
  rfl

/-- What the reader makes of one entry, behind the slices that it has read before. -/
def readEntry (data : Bytes) (i : Nat) (before : List Slice) : Except UniversalError Slice := do
  let arch ← (Arch.decode data (Universal.headerSize + i * Arch.codec.size)).mapError .record
  Slice.ofArch data (before.map (·.arch)) arch

/-- The window of the reader is the slice of the entry. -/
theorem slice_archAt (data : Bytes) (i : Nat) :
    data.slice (archAt data i).offset ((archAt data i).offset + (archAt data i).size)
      = sliceBytes data i := by
  have hstop : (archAt data i).offset + (archAt data i).size
      = ((sliceStart data i + sliceSize data i : Nat) : Int) := (Int.natCast_add ..).symm
  rw [hstop]
  exact data.slice_natCast (sliceStart data i) (sliceStart data i + sliceSize data i)

/-- The entry of a number stands for a slice exactly when it fits. -/
theorem ofArch_eq_ok_iff {before : List Slice} {s : Slice} (hbefore : ReadBefore data i before) :
    Slice.ofArch data (before.map (·.arch)) (archAt data i) = .ok s ↔
      EntryFits data i ∧ SliceOf data i s := by
  -- the bound of the slice is an integer for the reader and a natural number here
  have hcut : (data.size : Int) < (archAt data i).offset + (archAt data i).size ↔
      data.size < sliceStart data i + sliceSize data i := by
    have hstop : (archAt data i).offset + (archAt data i).size
        = ((sliceStart data i + sliceSize data i : Nat) : Int) := (Int.natCast_add ..).symm
    rw [hstop]
    exact Int.ofNat_lt
  unfold Slice.ofArch
  rw [slice_archAt]
  constructor
  · intro h
    -- the checks in their order: no duplicate, within the file, an image, its processor
    obtain ⟨hdup, h⟩ := ite_error_eq_ok_iff.mp h
    obtain ⟨hlong, h⟩ := ite_error_eq_ok_iff.mp h
    cases himage : Image.ofBytes (sliceBytes data i) with
    | error e =>
      rw [himage] at h
      cases h
    | ok img =>
      simp only [himage] at h
      by_cases hcpu : img.header.cpuType = (archAt data i).cpuType
      · rw [if_pos hcpu] at h
        cases h
        refine ⟨⟨?_, Nat.not_lt.mp fun hlt => hlong (hcut.mpr hlt), img, himage, hcpu⟩, rfl, himage⟩
        intro j hj heq
        exact hdup ((any_before_iff hbefore).mpr ⟨j, hj, heq⟩)
      · rw [if_neg hcpu] at h
        cases h
  -- an entry that fits passes the four checks one after the other
  · rintro ⟨⟨hfresh, hwithin, img, himage, hcpu⟩, harch, himage'⟩
    cases himage.symm.trans himage'
    have hdup : ¬ (before.map (·.arch)).any (fun b =>
        b.cpuType = (archAt data i).cpuType ∧ b.cpuSubtype = (archAt data i).cpuSubtype)
          = true := by
      intro hany
      obtain ⟨j, hj, heq⟩ := (any_before_iff hbefore).mp hany
      exact hfresh j hj heq
    have hlong : ¬ (data.size : Int) < (archAt data i).offset + (archAt data i).size := by
      intro hlt
      exact Nat.not_lt.mpr hwithin (hcut.mp hlt)
    refine ite_error_eq_ok_iff.mpr ⟨hdup, ite_error_eq_ok_iff.mpr ⟨hlong, ?_⟩⟩
    have hcpu' : s.image.header.cpuType = (archAt data i).cpuType := hcpu
    simp only [himage, if_pos hcpu']
    rw [← harch]

/-- An entry is read exactly when it is in the file and fits, as the slice it stands for. -/
theorem readEntry_eq_ok_iff {before : List Slice} {s : Slice}
    (hbefore : ReadBefore data i before) :
    readEntry data i before = .ok s ↔
      entryPlace i + 20 ≤ data.size ∧ EntryFits data i ∧ SliceOf data i s := by
  unfold readEntry
  rw [Arch.decode_entry]
  -- a record that has no room is refused before anything else is asked
  by_cases hplace : entryPlace i + 20 ≤ data.size
  · rw [if_pos hplace]
    constructor
    · intro h
      exact ⟨hplace, (ofArch_eq_ok_iff hbefore).mp h⟩
    · rintro ⟨-, hfits⟩
      exact (ofArch_eq_ok_iff hbefore).mpr hfits
  · rw [if_neg hplace]
    constructor
    · intro h
      cases h
    · rintro ⟨hin, -⟩
      exact absurd hin hplace

end Entry

/-!
## The table

The run over the entries goes through exactly when each of them fits, by induction on how many are
left.
-/

section Table

variable {data : Bytes}

theorem readSlices_succ (data : Bytes) (count i : Nat) (before : List Slice) :
    Universal.readSlices data (count + 1) i before =
      readEntry data i before >>= fun s =>
        Universal.readSlices data count (i + 1) (s :: before) := by
  rw [Universal.readSlices, readEntry, bind_assoc]

/-- The run over the entries: each is read behind those of lower numbers, and none is left out. -/
theorem readSlices_eq_ok_iff {count i : Nat} {before found : List Slice}
    (hbefore : ReadBefore data i before) :
    Universal.readSlices data count i before = .ok found ↔
      ∃ slices, found = before.reverse ++ slices
        ∧ (∀ j ∈ List.range' i count, entryPlace j + 20 ≤ data.size ∧ EntryFits data j)
        ∧ List.Forall₂ (SliceOf data) (List.range' i count) slices := by
  -- the induction is on the entries that are left; those read before are carried along
  induction count generalizing i before with
  | zero =>
    rw [Universal.readSlices, Except.ok.injEq, List.range'_zero]
    constructor
    · rintro rfl
      exact ⟨[], (List.append_nil _).symm, nofun, .nil⟩
    · rintro ⟨slices, rfl, -, hnil⟩
      cases hnil
      exact (List.append_nil _).symm
  | succ count ih =>
    rw [readSlices_succ, bind_eq_ok_iff, List.range'_succ]
    constructor
    · rintro ⟨s, hentry, hrest⟩
      obtain ⟨hplace, hfits, hslice⟩ := (readEntry_eq_ok_iff hbefore).mp hentry
      -- the entries behind the first one are a run of their own
      obtain ⟨slices, rfl, hall, hslices⟩ := (ih (hbefore.succ hslice)).mp hrest
      refine ⟨s :: slices, by simp, ?_, .cons hslice hslices⟩
      intro j hj
      rcases List.mem_cons.mp hj with rfl | hj
      · exact ⟨hplace, hfits⟩
      · exact hall j hj
    · rintro ⟨slices, rfl, hall, hslices⟩
      -- a list of slices beside a list of numbers that is not empty is not empty either
      cases hslices with
      | cons hslice hslices =>
        rename_i s slices
        obtain ⟨hplace, hfits⟩ := hall i (List.mem_cons_self ..)
        have hrest := (ih (hbefore.succ hslice)).mpr
          ⟨slices, by simp, fun j hj => hall j (List.mem_cons_of_mem _ hj), hslices⟩
        exact ⟨s, (readEntry_eq_ok_iff hbefore).mpr ⟨hplace, hfits, hslice⟩, hrest⟩

/-- The entries of the table are in the file when the last of them is. -/
theorem table_le_iff {count : Nat} (hsize : 8 ≤ data.size) :
    (∀ i < count, entryPlace i + 20 ≤ data.size) ↔ 8 + 20 * count ≤ data.size := by
  unfold entryPlace
  constructor
  · intro h
    cases count with
    | zero => exact hsize
    | succ count =>
      -- the last entry reaches as far as the table
      have hlast := h count (Nat.lt_succ_self _)
      omega
  · intro h i hi
    omega

theorem mem_universalMagics_iff {word : Nat} :
    word ∈ universalMagics ↔ word = 0xCAFEBABE ∨ word = 0xCAAEBABE := by
  unfold universalMagics
  simp only [List.mem_cons, List.not_mem_nil, or_false]

/-- A file is read as a universal binary exactly when it is one. -/
theorem ofBytes_eq_ok_iff {u : Universal} :
    Universal.ofBytes data = .ok u ↔
      HasSlices data ∧ u.magic = data.number .big 0 4
        ∧ List.Forall₂ (SliceOf data) (List.range (archCount data)) u.slices := by
  have hrun : ∀ slices, Universal.readSlices data (archCount data) 0 [] = .ok slices ↔
      (∀ i < archCount data, entryPlace i + 20 ≤ data.size ∧ EntryFits data i)
        ∧ List.Forall₂ (SliceOf data) (List.range (archCount data)) slices := by
    intro slices
    rw [readSlices_eq_ok_iff (ReadBefore.zero data), ← List.range_eq_range']
    simp only [List.mem_range, List.reverse_nil, List.nil_append, exists_eq_left']
  have hword : bigWord data 0 = data.number .big 0 4 := rfl
  have hcount : bigWord data 4 = archCount data := rfl
  unfold Universal.ofBytes
  simp only [hword, hcount]
  constructor
  · intro h
    -- the checks of the header in their order, and then the run over the entries
    obtain ⟨hshort, h⟩ := ite_error_eq_ok_iff.mp h
    obtain ⟨hother, h⟩ := ite_error_eq_ok_iff.mp h
    obtain ⟨hmany, h⟩ := ite_error_eq_ok_iff.mp h
    obtain ⟨slices, hread, rfl⟩ := map_eq_ok_iff.mp h
    obtain ⟨hentries, hslices⟩ := (hrun slices).mp hread
    have hsize : 8 ≤ data.size := Nat.not_lt.mp hshort
    exact ⟨⟨hsize, mem_universalMagics_iff.mp (not_not.mp hother), Nat.not_lt.mp hmany,
      (table_le_iff hsize).mp fun i hi => (hentries i hi).1, fun i hi => (hentries i hi).2⟩,
      rfl, hslices⟩
  · rintro ⟨h, hfirst, hslices⟩
    have hread := (hrun u.slices).mpr
      ⟨fun i hi => ⟨(table_le_iff h.header).mpr h.table i hi, h.entries i hi⟩, hslices⟩
    refine ite_error_eq_ok_iff.mpr ⟨Nat.not_lt.mpr h.header, ?_⟩
    refine ite_error_eq_ok_iff.mpr ⟨not_not.mpr (mem_universalMagics_iff.mpr h.magic), ?_⟩
    refine ite_error_eq_ok_iff.mpr ⟨Nat.not_lt.mpr h.count, ?_⟩
    rw [hread, ← hfirst]
    rfl

end Table

/-! ## Refused files -/

/-- The entries of the architecture table are read at places of the file. -/
theorem misread?_of_arch {data : Bytes} {i : Nat} {e : RecordError}
    (h : Arch.decode data ((Universal.headerSize : Int) + i * Arch.codec.size) = .error e) :
    e.misread? = none := by
  have hplace : ((Universal.headerSize : Int) + i * Arch.codec.size)
      = (Universal.headerSize + i * Arch.codec.size : Nat) := by
    push_cast
    rfl
  rw [hplace] at h
  rw [Codec.error_of_readOr h]
  rfl

/-- An entry that is refused is refused with an error of its own. -/
theorem misread?_of_ofArch {data : Bytes} {before : List Arch} {arch : Arch} {e : UniversalError}
    (h : Slice.ofArch data before arch = .error e) : e.misread? = none := by
  unfold Slice.ofArch at h
  rcases ite_error_eq_error h with rfl | h
  · rfl
  rcases ite_error_eq_error h with rfl | h
  · rfl
  split at h
  next e' himage =>
    cases h
    exact Image.misread?_of_ofBytes himage
  next =>
    split at h
    next => cases h
    next =>
      cases h
      rfl

/-- A run over the entries is refused in the same way, at whichever of them it stops. -/
theorem misread?_of_readSlices {data : Bytes} {count index : Nat} {before : List Slice}
    {e : UniversalError} (h : Universal.readSlices data count index before = .error e) :
    e.misread? = none := by
  induction count generalizing index before with
  | zero => cases h
  | succ count ih =>
    rw [Universal.readSlices] at h
    rcases bind_eq_error_iff.mp h with harch | ⟨arch, -, h⟩
    · obtain ⟨e', hrecord, rfl⟩ := mapError_eq_error_iff.mp harch
      exact misread?_of_arch hrecord
    -- a slice is read as an image of its own
    rcases bind_eq_error_iff.mp h with hslice | ⟨slice, -, h⟩
    · exact misread?_of_ofArch hslice
    · exact ih h

/-- **A file that is no universal binary is refused in an orderly way**: nothing is read outside it.
-/
theorem misread?_of_universal {data : Bytes} {e : UniversalError}
    (h : Universal.ofBytes data = .error e) : e.misread? = none := by
  unfold Universal.ofBytes at h
  simp only at h
  rcases ite_error_eq_error h with rfl | h
  · rfl
  rcases ite_error_eq_error h with rfl | h
  · rfl
  rcases ite_error_eq_error h with rfl | h
  · rfl
  exact misread?_of_readSlices (map_eq_error_iff.mp h)

/-!
## Files of both kinds

A file with slices also begins like a Java class. It is told from one by the number of its entries,
which is small.
-/

/-- The platform of a universal binary tells how many entries its table announces. -/
theorem classify_of_hasSlices {data : Bytes} (h : HasSlices data) :
    classify (data.extract 0 8) = .ok ⟨.machOUniversal,
      "macOS (" ++ toString (archCount data) ++ " architectures)"⟩ := by
  have hsize := h.header
  have hlong : ¬ (data.extract 0 8).size < headerSize := by
    rw [Array.size_extract, headerSize]
    omega
  -- both words lie in the first eight bytes
  have hword : bigWord (data.extract 0 8) 0 = data.number .big 0 4 :=
    data.number_extract .big (by decide)
  have hcount : bigWord (data.extract 0 8) 4 = archCount data :=
    data.number_extract .big (by decide)
  have hmagic : data.number .big 0 4 ∈ universalMagics := mem_universalMagics_iff.mpr h.magic
  rw [classify, if_neg hlong, Container.ofHeader]
  simp only [hword, hcount]
  rw [if_pos hmagic]

/-- A file is read as a universal binary exactly when it starts with the word of one, its table of
at most 64 entries lies in the file and names no processor twice, and each entry stands for an image
in the file, for the processor that the entry names; any other file is refused. The binary then has
one slice for each entry, in table order, with the image that the bytes of the slice hold by
themselves, and as many as the platform of the file tells. -/
theorem universal_read_exactly_when_slices_fit (data : Bytes) :
    (HasSlices data →
      ∃ u, Universal.ofBytes data = .ok u ∧ u.magic = data.number .big 0 4
        ∧ u.slices.length = archCount data
        ∧ List.Forall₂ (SliceOf data) (List.range (archCount data)) u.slices
        ∧ classify (data.extract 0 8) = .ok ⟨.machOUniversal,
            "macOS (" ++ toString u.slices.length ++ " architectures)"⟩)
    ∧ (¬ HasSlices data →
      ∃ e, Universal.ofBytes data = .error e ∧ e.misread? = none) := by
  constructor
  · intro h
    -- every entry stands for a slice, since its image can be read
    have hslice : ∀ i ∈ List.range (archCount data), ∃ s, SliceOf data i s := by
      intro i hi
      obtain ⟨img, himage, -⟩ := (h.entries i (List.mem_range.mp hi)).image
      exact ⟨⟨archAt data i, img⟩, rfl, himage⟩
    obtain ⟨slices, hslices⟩ := exists_forall₂ hslice
    have hlength : slices.length = archCount data := by
      rw [← hslices.length_eq, List.length_range]
    have hread : Universal.ofBytes data = .ok ⟨data.number .big 0 4, slices⟩ :=
      ofBytes_eq_ok_iff.mpr ⟨h, rfl, hslices⟩
    refine ⟨_, hread, rfl, hlength, hslices, ?_⟩
    rw [hlength]
    exact classify_of_hasSlices h
  -- a file that is read is one that has the slices
  · intro h
    cases hread : Universal.ofBytes data with
    | error e => exact ⟨e, rfl, misread?_of_universal hread⟩
    | ok u => exact absurd (ofBytes_eq_ok_iff.mp hread).1 h

end Provenance.MachO
