import Provenance.Proofs.Pe.Parsed

/-!
# Files that are PE images

Which files are PE images, told from the numbers that stand at each place of the file and not from
a run of the reader. Each place depends on a number in front of it: the DOS header tells where the
signature is, the COFF header how large the optional header is and how many sections there are, and
the optional header how many data directories stand behind its fixed part. Some sizes are held
against the size that is declared, others against the file, and neither implies the other.

Main results:

* `coffOffset_eq_ok_iff`, `readOptional_eq_ok_iff`, `readDirectories_eq_ok_iff`,
  `readSections_eq_ok_iff` — each part is read exactly when it is where its place says.
* `ofBytes_eq_ok_iff` — the reader accepts the files with headers that fit (`HasHeaders`), and the
  image it makes of one is the one that stands there (`imageIn`).
* `hasClrMetadata_imageIn` — which images are .NET assemblies.
* `image_read_exactly_when_headers_fit` — both directions of acceptance, and what is accepted.
-/

namespace Provenance.Pe

/-!
## Places

The places of the headers follow one another: the place of the signature stands in the DOS header,
the COFF header is behind the signature, the optional header behind that and the section table at
the end.
-/

/-- The number of bytes of the fixed part of an optional header. -/
def OptionalKind.fixedSize : OptionalKind → Nat
  | pe32 => 96
  | pe32Plus => 112

section Places

variable (data : Bytes)

/-- The place of the signature, which the DOS header tells. -/
def signaturePlace : Nat := data.number .little 60 4

/-- How many sections the COFF header tells. -/
def sectionTotal : Nat := data.number .little (signaturePlace data + 6) 2

/-- The size that the COFF header gives the optional header. -/
def optionalSize : Nat := data.number .little (signaturePlace data + 20) 2

/-- The place behind the COFF header. -/
def optionalPlace : Nat := signaturePlace data + 24

/-- How many data directories an optional header of a kind declares; the number may be any. -/
def declaredDirectories (kind : OptionalKind) : Nat :=
  data.number .little (optionalPlace data + (kind.fixedSize - 4)) 4

/-- How many data directories are read. -/
def directoryTotal (kind : OptionalKind) : Nat := min (declaredDirectories data kind) 16

/-- The place of a data directory, behind the fixed part of the optional header. -/
def directoryPlace (kind : OptionalKind) (i : Nat) : Nat :=
  optionalPlace data + kind.fixedSize + 8 * i

/-- The place of a section header, behind the size declared for the optional header. -/
def sectionPlace (i : Nat) : Nat := optionalPlace data + optionalSize data + 40 * i

/-- There is an optional header of a kind: its fixed part and its data directories have room in the
size that is declared, and they are in the file. -/
structure HasOptional (kind : OptionalKind) : Prop where
  magic : (data.number .little (optionalPlace data) 2 : Int) = kind.magic
  room : kind.fixedSize + 8 * directoryTotal data kind ≤ optionalSize data
  within : directoryPlace data kind (directoryTotal data kind) ≤ data.size

/-- The file starts with the headers of an image, each of them where the one before it says. -/
structure HasHeaders : Prop where
  dosHeader : 64 ≤ data.size
  mark : data.HoldsAt 0 [0x4D, 0x5A]
  signature : data.HoldsAt (signaturePlace data) [0x50, 0x45, 0, 0]
  coffHeader : signaturePlace data + 24 ≤ data.size
  optionalHeader : optionalSize data = 0 ∨ ∃ kind, HasOptional data kind
  count : sectionTotal data ≤ 256
  sections : sectionTotal data = 0 ∨ sectionPlace data (sectionTotal data) ≤ data.size

/-! ## What stands there -/

/-- The COFF header of a file. -/
def coffIn : CoffHeader where
  machine := data.number .little (signaturePlace data + 4) 2
  sectionCount := sectionTotal data
  timeDateStamp := data.number .little (signaturePlace data + 8) 4
  symbolTableOffset := data.number .little (signaturePlace data + 12) 4
  symbolCount := data.number .little (signaturePlace data + 16) 4
  optionalHeaderSize := optionalSize data
  characteristics := data.number .little (signaturePlace data + 22) 2

/-- The fixed part of an optional header of a kind. -/
def optionalIn (kind : OptionalKind) : OptionalHeader where
  magic := data.number .little (optionalPlace data) 2
  entryPoint := data.number .little (optionalPlace data + 16) 4
  imageBase := match kind with
    | .pe32 => data.number .little (optionalPlace data + 28) 4
    | .pe32Plus => data.number .little (optionalPlace data + 24) 8
  directoryCount := declaredDirectories data kind

/-- The data directory at a place. -/
def directoryAt (place : Nat) : DataDirectory where
  virtualAddress := data.number .little place 4
  size := data.number .little (place + 4) 4

/-- The section header at a place. -/
def sectionAt (place : Nat) : SectionHeader where
  name := (data.extract place (place + 8)).toList
  virtualSize := data.number .little (place + 8) 4
  virtualAddress := data.number .little (place + 12) 4
  rawSize := data.number .little (place + 16) 4
  rawOffset := data.number .little (place + 20) 4
  relocationsOffset := data.number .little (place + 24) 4
  lineNumbersOffset := data.number .little (place + 28) 4
  relocationCount := data.number .little (place + 32) 2
  lineNumberCount := data.number .little (place + 34) 2
  characteristics := data.number .little (place + 36) 4

/-- The kind of the optional header, if there is one. -/
def kindIn? : Option OptionalKind :=
  if optionalSize data = 0 then none
  else OptionalKind.ofMagic? (data.number .little (optionalPlace data) 2)

/-- The data directories of an optional header of a kind. -/
def directoriesOf (kind : OptionalKind) : List DataDirectory :=
  (List.range (directoryTotal data kind)).map fun i =>
    directoryAt data (directoryPlace data kind i)

/-- The section of a number, with the name that its header and the string table give it. -/
def sectionIn (i : Nat) : Section where
  index := i
  name := sectionName data (coffIn data) (sectionAt data (sectionPlace data i))
  header := sectionAt data (sectionPlace data i)

/-- The image that stands in a file. -/
def imageIn : Image where
  data := data
  coff := coffIn data
  optional? := (kindIn? data).map (optionalIn data)
  directories := (kindIn? data).elim [] (directoriesOf data)
  sections := (List.range (sectionTotal data)).map (sectionIn data)

theorem optional?_imageIn :
    (imageIn data).optional? = (kindIn? data).map (optionalIn data) := by
  simp only [imageIn]

theorem directories_imageIn :
    (imageIn data).directories = (kindIn? data).elim [] (directoriesOf data) := by
  simp only [imageIn]

theorem sections_imageIn :
    (imageIn data).sections = (List.range (sectionTotal data)).map (sectionIn data) := by
  simp only [imageIn]

end Places

/-! ## Records at their places -/

section Records

variable {data : Bytes}

theorem codec_size (kind : OptionalKind) : (OptionalHeader.codec kind).size = kind.fixedSize := by
  cases kind <;> rfl

/-- The DOS header at the start of a file. -/
theorem recordAt_dos :
    DosHeader.codec.recordAt data 0 = ⟨data.number .little 0 2, signaturePlace data⟩ := by
  have hmagic := Word.u16.decode_drop_take .little data 0 64 0 rfl (by decide)
  have hplace := Word.u32.decode_drop_take .little data 0 64 60 rfl (by decide)
  rw [Nat.zero_add] at hplace
  simp only [Codec.recordAt, DosHeader.codec, Layout.decode, List.drop_drop]
  rw [DosHeader.mk.injEq]
  exact ⟨hmagic, hplace⟩

/-- The COFF header behind the signature. -/
theorem recordAt_coff :
    CoffHeader.codec.recordAt data (signaturePlace data + 4) = coffIn data := by
  -- the seven words stand one behind the other, each at its own place
  have hword : ∀ (w : Word) (skipped : Nat), w.signed = false → skipped + w.width ≤ 20 →
      w.decode .little (((data.extract (signaturePlace data + 4)
          (signaturePlace data + 4 + 20)).toList.drop skipped).take w.width)
        = data.number .little (signaturePlace data + (4 + skipped)) w.width := by
    intro w skipped hunsigned hfits
    rw [w.decode_drop_take .little data _ 20 skipped hunsigned hfits, Nat.add_assoc]
  simp only [Codec.recordAt, CoffHeader.codec, Layout.decode, List.drop_drop]
  unfold coffIn
  rw [CoffHeader.mk.injEq]
  exact ⟨hword .u16 0 rfl (by decide), hword .u16 2 rfl (by decide), hword .u32 4 rfl (by decide),
    hword .u32 8 rfl (by decide), hword .u32 12 rfl (by decide), hword .u16 16 rfl (by decide),
    hword .u16 18 rfl (by decide)⟩

/-- The optional header of a kind behind the COFF header. -/
theorem recordAt_optional (kind : OptionalKind) :
    (OptionalHeader.codec kind).recordAt data (optionalPlace data) = optionalIn data kind := by
  have hword : ∀ (w : Word) (size skipped : Nat), w.signed = false → skipped + w.width ≤ size →
      w.decode .little (((data.extract (optionalPlace data)
          (optionalPlace data + size)).toList.drop skipped).take w.width)
        = data.number .little (optionalPlace data + skipped) w.width := by
    intro w size skipped hunsigned hfits
    exact w.decode_drop_take .little data _ size skipped hunsigned hfits
  -- the kinds differ in the base, and so in the place of the number of directories
  cases kind with
  | pe32 =>
    simp only [Codec.recordAt, OptionalHeader.codec, OptionalHeader.codec32, OptionalKind.layout,
      Layout.decode, List.drop_drop]
    unfold optionalIn
    rw [OptionalHeader.mk.injEq]
    exact ⟨hword .u16 96 0 rfl (by decide), hword .u32 96 16 rfl (by decide),
      hword .u32 96 28 rfl (by decide), hword .u32 96 92 rfl (by decide)⟩
  | pe32Plus =>
    simp only [Codec.recordAt, OptionalHeader.codec, OptionalHeader.codec64, OptionalKind.layout,
      Layout.decode, List.drop_drop]
    unfold optionalIn
    rw [OptionalHeader.mk.injEq]
    exact ⟨hword .u16 112 0 rfl (by decide), hword .u32 112 16 rfl (by decide),
      hword .u64 112 24 rfl (by decide), hword .u32 112 108 rfl (by decide)⟩

/-- The data directory at its place. -/
theorem recordAt_directory (place : Nat) :
    DataDirectory.codec.recordAt data place = directoryAt data place := by
  have haddress := Word.u32.decode_drop_take .little data place 8 0 rfl (by decide)
  have hsize := Word.u32.decode_drop_take .little data place 8 4 rfl (by decide)
  simp only [Codec.recordAt, DataDirectory.codec, Layout.decode]
  unfold directoryAt
  rw [DataDirectory.mk.injEq]
  exact ⟨haddress, hsize⟩

/-- The section header at its place. -/
theorem recordAt_section (place : Nat) :
    SectionHeader.codec.recordAt data place = sectionAt data place := by
  have hword : ∀ (w : Word) (skipped : Nat), w.signed = false → skipped + w.width ≤ 40 →
      w.decode .little (((data.extract place (place + 40)).toList.drop skipped).take w.width)
        = data.number .little (place + skipped) w.width := by
    intro w skipped hunsigned hfits
    exact w.decode_drop_take .little data place 40 skipped hunsigned hfits
  simp only [Codec.recordAt, SectionHeader.codec, Layout.decode, List.drop_drop]
  unfold sectionAt
  rw [SectionHeader.mk.injEq]
  exact ⟨data.take_extract place 8 32, hword .u32 8 rfl (by decide), hword .u32 12 rfl (by decide),
    hword .u32 16 rfl (by decide), hword .u32 20 rfl (by decide), hword .u32 24 rfl (by decide),
    hword .u32 28 rfl (by decide), hword .u16 32 rfl (by decide), hword .u16 34 rfl (by decide),
    hword .u32 36 rfl (by decide)⟩

end Records

/-!
## Reading each part

Each part of the reader goes through exactly when its header fits, and then has what stands at its
place.
-/

section Parts

variable {data : Bytes}

/-- The DOS header is read exactly from a file that is long enough and starts with the two letters.
-/
theorem decode_dos_eq_ok_iff {dos : DosHeader} :
    DosHeader.decode data 0 = .ok dos ↔
      64 ≤ data.size ∧ data.HoldsAt 0 [0x4D, 0x5A]
        ∧ dos = ⟨DosHeader.expectedMagic, signaturePlace data⟩ := by
  have hdecode : DosHeader.decode data 0 = _ := DosHeader.decode_natCast data 0
  have hread : read DosHeader.codec .dosHeader data ((0 : Nat) : Int) = _ :=
    read_natCast DosHeader.codec .dosHeader data 0
  have hsize : 0 + DosHeader.codec.size = 64 := rfl
  rw [hdecode, hread, hsize, recordAt_dos]
  by_cases hlong : 64 ≤ data.size
  · -- the two letters are those of the magic number, the least significant byte first
    have hmark : data.number .little 0 2 = 0x5A4D ↔ data.HoldsAt 0 [0x4D, 0x5A] :=
      Bytes.number_eq_iff_holdsAt (by omega) (by decide)
    rw [if_pos hlong, and_iff_right hlong, ← hmark]
    show (if (data.number .little 0 2 : Int) = 0x5A4D then _ else _) = _ ↔ _
    by_cases hmagic : data.number .little 0 2 = 0x5A4D
    · rw [if_pos (by omega), Except.ok.injEq, hmagic, and_iff_right rfl]
      exact eq_comm
    · rw [if_neg (by omega)]
      simp [hmagic]
  · rw [if_neg hlong]
    simp [hlong, Except.bind]

/-- What the reader makes of the place of the signature. -/
def readSignature (data : Bytes) (start : Int) : Except ImageError Int :=
  if data.size < start + 4 then .error (.headerOffset start data.size)
  else
    if (data.slice start (start + 4)).toList = signature then .ok (start + 4)
    else .error (.badSignature (data.slice start (start + 4)).toList)

/-- The signature is found exactly where its four bytes are, and what follows starts behind them. -/
theorem readSignature_eq_ok_iff {place : Nat} {start : Int} :
    readSignature data place = .ok start ↔
      data.HoldsAt place [0x50, 0x45, 0, 0] ∧ start = (place + 4 : Nat) := by
  have hstop : (place : Int) + 4 = (place + 4 : Nat) := rfl
  have hlength : signature.length = 4 := rfl
  show _ ↔ data.HoldsAt place signature ∧ _
  unfold readSignature
  rw [hstop, data.slice_natCast, ite_error_eq_ok_iff, Bytes.HoldsAt, hlength]
  -- a slice that is cut off by the end of the file is shorter than the signature, and so differs
  -- from it
  by_cases hfound : (data.extract place (place + 4)).toList = signature
  · rw [if_pos hfound, Except.ok.injEq]
    constructor
    · rintro ⟨hsize, rfl⟩
      exact ⟨⟨by omega, hfound⟩, rfl⟩
    · rintro ⟨⟨hsize, -⟩, rfl⟩
      exact ⟨by omega, rfl⟩
  · rw [if_neg hfound]
    constructor
    · rintro ⟨-, h⟩
      cases h
    · rintro ⟨⟨-, hheld⟩, -⟩
      exact absurd hheld hfound

/-- The COFF header is looked for behind the signature, and the signature where the DOS header
says. -/
theorem coffOffset_eq_ok_iff {start : Int} :
    Image.coffOffset data = .ok start ↔
      64 ≤ data.size ∧ data.HoldsAt 0 [0x4D, 0x5A]
        ∧ data.HoldsAt (signaturePlace data) [0x50, 0x45, 0, 0]
        ∧ start = (signaturePlace data + 4 : Nat) := by
  -- two steps: the DOS header, and the signature at the place it tells
  have hrun : Image.coffOffset data
      = ofRecord (DosHeader.decode data 0) >>= fun dos => readSignature data dos.newHeaderOffset :=
    rfl
  rw [hrun, bind_eq_ok_iff]
  constructor
  · rintro ⟨dos, hdos, h⟩
    obtain ⟨hsize, hmark, rfl⟩ := decode_dos_eq_ok_iff.mp (mapError_eq_ok_iff.mp hdos)
    obtain ⟨hheld, hstart⟩ := readSignature_eq_ok_iff.mp h
    exact ⟨hsize, hmark, hheld, hstart⟩
  · rintro ⟨hsize, hmark, hheld, hstart⟩
    have hdos := decode_dos_eq_ok_iff.mpr ⟨hsize, hmark, rfl⟩
    exact ⟨_, mapError_eq_ok_iff.mpr hdos, readSignature_eq_ok_iff.mpr ⟨hheld, hstart⟩⟩

/-- The COFF header is read exactly when all of it is in the file. -/
theorem decode_coff_eq_ok_iff {coff : CoffHeader} :
    CoffHeader.decode data (signaturePlace data + 4 : Nat) = .ok coff ↔
      signaturePlace data + 24 ≤ data.size ∧ coff = coffIn data := by
  have hread : CoffHeader.decode data (signaturePlace data + 4 : Nat) = _ :=
    read_natCast CoffHeader.codec .coffHeader data (signaturePlace data + 4)
  have hstop : signaturePlace data + 4 + CoffHeader.codec.size = signaturePlace data + 24 := rfl
  rw [hread, hstop, recordAt_coff]
  by_cases hfits : signaturePlace data + 24 ≤ data.size
  · rw [if_pos hfits, and_iff_right hfits, Except.ok.injEq]
    exact eq_comm
  · rw [if_neg hfits]
    simp [hfits]

/-- The kind of an optional header is told by its magic number. -/
theorem ofMagic?_eq_some_iff {magic : Int} {kind : OptionalKind} :
    OptionalKind.ofMagic? magic = some kind ↔ magic = kind.magic := by
  unfold OptionalKind.ofMagic?
  constructor
  · intro h
    have hmagic := List.find?_some h
    exact (of_decide_eq_true hmagic).symm
  · rintro rfl
    cases kind <;> rfl

/-- The fixed part of a kind is read exactly when it is in the file with the number of the kind. -/
theorem decode_optional_eq_ok_iff {kind : OptionalKind} {header : OptionalHeader} :
    OptionalHeader.decode kind data (optionalPlace data) = .ok header ↔
      optionalPlace data + kind.fixedSize ≤ data.size
        ∧ (data.number .little (optionalPlace data) 2 : Int) = kind.magic
        ∧ header = optionalIn data kind := by
  have hread : read (OptionalHeader.codec kind) .optionalHeader data (optionalPlace data) = _ :=
    read_natCast (OptionalHeader.codec kind) .optionalHeader data (optionalPlace data)
  rw [OptionalHeader.decode_natCast, hread, codec_size, recordAt_optional]
  by_cases hfits : optionalPlace data + kind.fixedSize ≤ data.size
  · rw [if_pos hfits, and_iff_right hfits]
    show (if (data.number .little (optionalPlace data) 2 : Int) = kind.magic then _ else _) = _ ↔ _
    -- the record is there, and its first word has to be the magic number of the kind
    by_cases hmagic : (data.number .little (optionalPlace data) 2 : Int) = kind.magic
    · rw [if_pos hmagic, and_iff_right hmagic, Except.ok.injEq]
      exact eq_comm
    · rw [if_neg hmagic]
      simp [hmagic]
  · rw [if_neg hfits]
    simp [hfits, Except.bind]

/-- The fixed part of an optional header is read exactly when it is one of a known kind that has
room in the declared size and is in the file; a declared size of zero is no header. -/
theorem readOptional_eq_ok_iff {optional? : Option OptionalHeader} :
    Image.readOptional data (optionalSize data) (optionalPlace data) = .ok optional? ↔
      (optionalSize data = 0 ∧ optional? = none)
        ∨ ∃ kind : OptionalKind,
          (data.number .little (optionalPlace data) 2 : Int) = kind.magic
            ∧ kind.fixedSize ≤ optionalSize data
            ∧ optionalPlace data + kind.fixedSize ≤ data.size
            ∧ optional? = some (optionalIn data kind) := by
  have hpos : ∀ kind : OptionalKind, 96 ≤ kind.fixedSize := by
    intro kind
    cases kind <;> decide
  unfold Image.readOptional
  by_cases hzero : optionalSize data = 0
  · rw [if_pos (by omega), Except.ok.injEq]
    constructor
    · rintro rfl
      exact .inl ⟨hzero, rfl⟩
    · rintro (⟨-, rfl⟩ | ⟨kind, -, hroom, -⟩)
      · rfl
      · -- no fixed part has room in no bytes
        have := hpos kind
        omega
  rw [if_neg (by omega)]
  constructor
  -- the checks in their order: a word for the magic number, a known kind, room, and the record
  · intro h
    obtain ⟨-, h⟩ := ite_error_eq_ok_iff.mp h
    split at h
    next => cases h
    next magic hword =>
      split at h
      next => cases h
      next kind hkind =>
        obtain ⟨hroom, h⟩ := ite_error_eq_ok_iff.mp h
        obtain ⟨header, hheader, rfl⟩ := map_eq_ok_iff.mp h
        obtain ⟨hfits, hmagic, rfl⟩ :=
          decode_optional_eq_ok_iff.mp (mapError_eq_ok_iff.mp hheader)
        rw [codec_size] at hroom
        exact .inr ⟨kind, hmagic, by omega, hfits, rfl⟩
  · rintro (⟨hz, -⟩ | ⟨kind, hmagic, hroom, hfits, rfl⟩)
    · exact absurd hz hzero
    have hsize := hpos kind
    -- the word of the magic number is read ahead of the rest, and is in the file as the rest is
    have hword : Word.u16.read .little data (optionalPlace data)
        = .ok (data.number .little (optionalPlace data) 2 : Int) := by
      have hwidth : Word.u16.width = 2 := rfl
      rw [Word.read_natCast, hwidth, if_pos (by omega), Word.decode_of_unsigned rfl]
      rfl
    have hheader := decode_optional_eq_ok_iff.mpr ⟨hfits, hmagic, rfl⟩
    refine ite_error_eq_ok_iff.mpr ⟨by omega, ?_⟩
    simp only [hword, ofMagic?_eq_some_iff.mpr hmagic]
    refine ite_error_eq_ok_iff.mpr ⟨by rw [codec_size]; omega, ?_⟩
    exact map_eq_ok_iff.mpr ⟨_, mapError_eq_ok_iff.mpr hheader, rfl⟩

/-- Records of one size that stand one behind the other are all in the file when the last one is. -/
theorem all_within_iff {start size count : Nat} :
    (∀ i ∈ List.range count, start + size * i + size ≤ data.size) ↔
      count = 0 ∨ start + size * count ≤ data.size := by
  cases count with
  | zero => simp
  | succ count =>
    constructor
    · intro h
      -- the last of them reaches the furthest
      have hlast := h count (List.mem_range.mpr (Nat.lt_succ_self _))
      exact .inr (by rw [Nat.mul_succ]; omega)
    · intro h i hi
      have hall : start + size * (count + 1) ≤ data.size := h.resolve_left (Nat.succ_ne_zero _)
      have hmul : size * (i + 1) ≤ size * (count + 1) :=
        Nat.mul_le_mul_left _ (List.mem_range.mp hi)
      rw [Nat.mul_succ] at hmul
      omega

/-- The size of the fixed part is told from the header again. -/
theorem fixedSize_optionalIn {kind : OptionalKind}
    (hmagic : (data.number .little (optionalPlace data) 2 : Int) = kind.magic) :
    Image.fixedSize (optionalIn data kind) = kind.fixedSize := by
  have hfound : (optionalIn data kind).magic = kind.magic := hmagic
  unfold Image.fixedSize OptionalHeader.isPe32Plus
  rw [hfound]
  cases kind <;> rfl

/-- The data directories are read exactly when they have room in the declared size and are in the
file. -/
theorem readDirectories_eq_ok_iff {kind : OptionalKind} {directories : List DataDirectory}
    (hmagic : (data.number .little (optionalPlace data) 2 : Int) = kind.magic)
    (hfits : optionalPlace data + kind.fixedSize ≤ data.size) :
    Image.readDirectories data (some (optionalIn data kind)) (optionalSize data)
        (optionalPlace data) = .ok directories ↔
      HasOptional data kind ∧ directories = directoriesOf data kind := by
  -- at most sixteen directories are read, however many are declared
  have hcount : min (optionalIn data kind).directoryCount maxDirectories
      = (directoryTotal data kind : Nat) := by
    show min (declaredDirectories data kind : Int) 16 = _
    unfold directoryTotal
    omega
  have hsize : DataDirectory.codec.size = 8 := rfl
  have hentry : ∀ i : Nat,
      ofRecord (DataDirectory.decode data
        ((optionalPlace data : Int) + kind.fixedSize + i * (8 : Nat)))
      = if optionalPlace data + kind.fixedSize + 8 * i + 8 ≤ data.size
        then .ok (directoryAt data (directoryPlace data kind i))
        else .error (.record (.tooShort .dataDirectory data.size
          (directoryPlace data kind i + 8 : Nat))) := by
    -- each directory is checked against the file by itself
    intro i
    have hplace : (optionalPlace data : Int) + kind.fixedSize + i * (8 : Nat)
        = (directoryPlace data kind i : Nat) := by
      unfold directoryPlace
      push_cast
      omega
    have hread : DataDirectory.decode data (directoryPlace data kind i) = _ :=
      read_natCast DataDirectory.codec .dataDirectory data (directoryPlace data kind i)
    rw [hplace, hread, hsize, recordAt_directory]
    unfold directoryPlace
    split <;> rfl
  unfold Image.readDirectories
  simp only [hcount, fixedSize_optionalIn hmagic, hsize, Int.toNat_natCast]
  rw [ite_error_eq_ok_iff, mapM_ite_eq_ok_iff hentry, all_within_iff]
  constructor
  · rintro ⟨hdeclared, hwithin, rfl⟩
    refine ⟨⟨hmagic, by omega, ?_⟩, rfl⟩
    rcases hwithin with hnone | hwithin
    · rw [hnone]
      exact hfits
    · exact hwithin
  · rintro ⟨h, rfl⟩
    have hdeclared := h.room
    exact ⟨by omega, .inr h.within, rfl⟩

/-- The sections are read exactly when there are not too many and all their headers are in the
file. Where there are none, the place behind the optional header need not be in the file. -/
theorem readSections_eq_ok_iff {sections : List Section} :
    Image.readSections data (coffIn data) ((optionalPlace data : Int) + optionalSize data)
        = .ok sections ↔
      sectionTotal data ≤ 256
        ∧ (sectionTotal data = 0 ∨ sectionPlace data (sectionTotal data) ≤ data.size)
        ∧ sections = (List.range (sectionTotal data)).map (sectionIn data) := by
  have hcount : (coffIn data).sectionCount = sectionTotal data := rfl
  have hsize : SectionHeader.codec.size = 40 := rfl
  -- a section is read when its header is; its name never fails
  have hentry : ∀ i : Nat,
      (do
        let h ← ofRecord (SectionHeader.decode data
          ((optionalPlace data : Int) + optionalSize data + i * (40 : Nat)))
        return (⟨i, sectionName data (coffIn data) h, h⟩ : Section))
      = if optionalPlace data + optionalSize data + 40 * i + 40 ≤ data.size
        then .ok (sectionIn data i)
        else .error (.record (.tooShort .sectionHeader data.size
          (sectionPlace data i + 40 : Nat))) := by
    intro i
    have hplace : (optionalPlace data : Int) + optionalSize data + i * (40 : Nat)
        = (sectionPlace data i : Nat) := by
      unfold sectionPlace
      push_cast
      omega
    have hread : SectionHeader.decode data (sectionPlace data i) = _ :=
      read_natCast SectionHeader.codec .sectionHeader data (sectionPlace data i)
    rw [hplace, hread, hsize, recordAt_section]
    unfold sectionPlace
    split <;> rfl
  unfold Image.readSections
  simp only [hcount, hsize, Int.toNat_natCast]
  rw [ite_error_eq_ok_iff, mapM_ite_eq_ok_iff hentry, all_within_iff]
  have hmany : ¬ maxSections < (sectionTotal data : Int) ↔ sectionTotal data ≤ 256 := by
    unfold maxSections
    omega
  rw [hmany]
  exact Iff.rfl

end Parts

/-! ## The image -/

section Images

variable {data : Bytes}

/-- There is no kind exactly when no optional header is declared. -/
theorem kindIn?_eq_none_iff (hfits : HasHeaders data) :
    kindIn? data = none ↔ optionalSize data = 0 := by
  unfold kindIn?
  by_cases hzero : optionalSize data = 0
  · simp [hzero]
  · obtain ⟨kind, hkind⟩ := hfits.optionalHeader.resolve_left hzero
    rw [if_neg hzero, ofMagic?_eq_some_iff.mpr hkind.magic]
    simp [hzero]

/-- The kind of the optional header that is there. -/
theorem kindIn?_of_hasOptional {kind : OptionalKind} (h : HasOptional data kind) :
    kindIn? data = some kind := by
  have hroom := h.room
  have hpos : 96 ≤ kind.fixedSize := by cases kind <;> decide
  unfold kindIn?
  rw [if_neg (by omega)]
  exact ofMagic?_eq_some_iff.mpr h.magic

/-- The optional header and the data directories are read one after the other. -/
theorem readOptional_and_directories_iff {optional? : Option OptionalHeader}
    {directories : List DataDirectory} :
    (Image.readOptional data (optionalSize data) (optionalPlace data) = .ok optional?
        ∧ Image.readDirectories data optional? (optionalSize data) (optionalPlace data)
          = .ok directories) ↔
      (optionalSize data = 0 ∨ ∃ kind, HasOptional data kind)
        ∧ optional? = (kindIn? data).map (optionalIn data)
        ∧ directories = (kindIn? data).elim [] (directoriesOf data) := by
  constructor
  · rintro ⟨hoptional, hdirectories⟩
    rcases readOptional_eq_ok_iff.mp hoptional with
      ⟨hzero, rfl⟩ | ⟨kind, hmagic, hroom, hfits, rfl⟩
    · -- without an optional header there are no directories either
      have hnone : kindIn? data = none := if_pos hzero
      cases hdirectories
      rw [hnone]
      exact ⟨.inl hzero, rfl, rfl⟩
    · obtain ⟨hkind, rfl⟩ := (readDirectories_eq_ok_iff hmagic hfits).mp hdirectories
      rw [kindIn?_of_hasOptional hkind]
      exact ⟨.inr ⟨kind, hkind⟩, rfl, rfl⟩
  · rintro ⟨hheader, hoptional, hdirectories⟩
    rw [hoptional, hdirectories]
    rcases hheader with hzero | ⟨kind, hkind⟩
    · have hnone : kindIn? data = none := if_pos hzero
      rw [hnone]
      exact ⟨readOptional_eq_ok_iff.mpr (.inl ⟨hzero, rfl⟩), rfl⟩
    · have hroom := hkind.room
      have hfits : optionalPlace data + kind.fixedSize ≤ data.size := by
        have hwithin := hkind.within
        unfold directoryPlace at hwithin
        omega
      rw [kindIn?_of_hasOptional hkind]
      exact ⟨readOptional_eq_ok_iff.mpr (.inr ⟨kind, hkind.magic, by omega, hfits, rfl⟩),
        (readDirectories_eq_ok_iff hkind.magic hfits).mpr ⟨hkind, rfl⟩⟩

/-- A file is read as an image exactly when its headers fit, and then as the one that stands
there. -/
theorem ofBytes_eq_ok_iff {img : Image} :
    Image.ofBytes data = .ok img ↔ HasHeaders data ∧ img = imageIn data := by
  -- the places that the reader computes from the COFF header
  have hbehind : ((signaturePlace data + 4 : Nat) : Int) + CoffHeader.codec.size
      = (optionalPlace data : Nat) := rfl
  have hsize : (coffIn data).optionalHeaderSize = optionalSize data := rfl
  constructor
  -- the reader's steps in their order, each turned into its condition
  · intro h
    obtain ⟨start, hstart, h⟩ := bind_eq_ok_iff.mp h
    obtain ⟨coff, hcoff, h⟩ := bind_eq_ok_iff.mp h
    obtain ⟨optional?, hoptional, h⟩ := bind_eq_ok_iff.mp h
    obtain ⟨directories, hdirectories, h⟩ := bind_eq_ok_iff.mp h
    obtain ⟨sections, hsections, h⟩ := bind_eq_ok_iff.mp h
    cases h
    obtain ⟨hdos, hmark, hsignature, rfl⟩ := coffOffset_eq_ok_iff.mp hstart
    obtain ⟨hlong, rfl⟩ := decode_coff_eq_ok_iff.mp (mapError_eq_ok_iff.mp hcoff)
    rw [hbehind, hsize] at hoptional hdirectories hsections
    obtain ⟨hkind, rfl, rfl⟩ :=
      readOptional_and_directories_iff.mp ⟨hoptional, hdirectories⟩
    obtain ⟨hcount, hwithin, rfl⟩ := readSections_eq_ok_iff.mp hsections
    exact ⟨⟨hdos, hmark, hsignature, hlong, hkind, hcount, hwithin⟩, rfl⟩
  · rintro ⟨h, rfl⟩
    have hstart := coffOffset_eq_ok_iff.mpr ⟨h.dosHeader, h.mark, h.signature, rfl⟩
    have hcoff := decode_coff_eq_ok_iff.mpr ⟨h.coffHeader, rfl⟩
    obtain ⟨hoptional, hdirectories⟩ :=
      readOptional_and_directories_iff.mpr ⟨h.optionalHeader, rfl, rfl⟩
    have hsections := readSections_eq_ok_iff.mpr ⟨h.count, h.sections, rfl⟩
    refine bind_eq_ok_iff.mpr ⟨_, hstart, ?_⟩
    refine bind_eq_ok_iff.mpr ⟨_, mapError_eq_ok_iff.mpr hcoff, ?_⟩
    rw [hbehind, hsize]
    refine bind_eq_ok_iff.mpr ⟨_, hoptional, ?_⟩
    refine bind_eq_ok_iff.mpr ⟨_, hdirectories, ?_⟩
    exact bind_eq_ok_iff.mpr ⟨_, hsections, rfl⟩

theorem directories_of_hasOptional {kind : OptionalKind} (h : HasOptional data kind) :
    (imageIn data).directories = directoriesOf data kind := by
  rw [directories_imageIn, kindIn?_of_hasOptional h]
  rfl

/-- An image is a .NET assembly exactly when its optional header declares fifteen data directories
or more and the fifteenth has an address. -/
theorem hasClrMetadata_imageIn (hfits : HasHeaders data) :
    (imageIn data).hasClrMetadata = true ↔
      ∃ kind, HasOptional data kind ∧ 15 ≤ declaredDirectories data kind
        ∧ data.number .little (directoryPlace data kind 14) 4 ≠ 0 := by
  have hask : (imageIn data).hasClrMetadata
      = (imageIn data).directories[14]?.any (·.virtualAddress ≠ 0) := rfl
  rw [hask]
  constructor
  · intro h
    by_cases hzero : optionalSize data = 0
    · -- no directory is there to be asked
      have hnone : (imageIn data).directories = [] := by
        rw [directories_imageIn, (kindIn?_eq_none_iff hfits).mpr hzero]
        rfl
      rw [hnone] at h
      cases h
    -- the fifteenth directory is among those that were read, or there is none to ask
    · obtain ⟨kind, hkind⟩ := hfits.optionalHeader.resolve_left hzero
      rw [directories_of_hasOptional hkind, directoriesOf, List.getElem?_map] at h
      by_cases hmany : 14 < directoryTotal data kind
      · have hdeclared : directoryTotal data kind ≤ declaredDirectories data kind :=
          Nat.min_le_left _ _
        rw [List.getElem?_range hmany, Option.map_some, Option.any_some, decide_eq_true_eq] at h
        exact ⟨kind, hkind, by omega, Int.ofNat_ne_zero.mp h⟩
      · rw [List.getElem?_eq_none (by rw [List.length_range]; omega)] at h
        cases h
  · rintro ⟨kind, hkind, hmany, haddress⟩
    have htotal : 14 < directoryTotal data kind := by
      unfold directoryTotal
      omega
    rw [directories_of_hasOptional hkind, directoriesOf, List.getElem?_map,
      List.getElem?_range htotal, Option.map_some, Option.any_some, decide_eq_true_eq]
    exact Int.ofNat_ne_zero.mpr haddress

end Images

/-- **Acceptance of images.** A file is read as an image exactly when its headers fit, and is
refused otherwise. The image has the sections of the section table, in table order, each with its
number, the header at its place and the name that goes with it; it has as many data directories as
its optional header declares, sixteen at most, each from its place; and it is a .NET assembly
exactly when the fifteenth of them is declared and has an address. -/
theorem image_read_exactly_when_headers_fit (data : Bytes) :
    (HasHeaders data →
      ∃ img, Image.ofBytes data = .ok img
        ∧ img.sections.length = sectionTotal data
        ∧ (∀ i < sectionTotal data, img.sections[i]? =
            some ⟨i, sectionName data (coffIn data) (sectionAt data (sectionPlace data i)),
              sectionAt data (sectionPlace data i)⟩)
        ∧ (optionalSize data = 0 → img.optional? = none ∧ img.directories = [])
        ∧ (∀ kind, HasOptional data kind →
            img.optional? = some (optionalIn data kind)
            ∧ img.directories.length = directoryTotal data kind
            ∧ ∀ i < directoryTotal data kind,
              img.directories[i]? = some (directoryAt data (directoryPlace data kind i)))
        ∧ (img.hasClrMetadata = true ↔
            ∃ kind, HasOptional data kind ∧ 15 ≤ declaredDirectories data kind
              ∧ data.number .little (directoryPlace data kind 14) 4 ≠ 0))
    ∧ (¬ HasHeaders data →
      ∃ e, Image.ofBytes data = .error e ∧ ¬ Escapes e.misread?) := by
  constructor
  · intro hfits
    -- the image is known as a whole, and each clause is a part of it
    refine ⟨imageIn data, ofBytes_eq_ok_iff.mpr ⟨hfits, rfl⟩, ?_, ?_, ?_, ?_,
      hasClrMetadata_imageIn hfits⟩
    · rw [sections_imageIn, List.length_map, List.length_range]
    · intro i hi
      rw [sections_imageIn, List.getElem?_map, List.getElem?_range hi]
      rfl
    · intro hzero
      rw [optional?_imageIn, directories_imageIn, (kindIn?_eq_none_iff hfits).mpr hzero]
      exact ⟨rfl, rfl⟩
    · intro kind hkind
      refine ⟨?_, ?_, ?_⟩
      · rw [optional?_imageIn, kindIn?_of_hasOptional hkind]
        rfl
      · rw [directories_of_hasOptional hkind, directoriesOf, List.length_map, List.length_range]
      · intro i hi
        rw [directories_of_hasOptional hkind, directoriesOf, List.getElem?_map,
          List.getElem?_range hi]
        rfl
  · intro hnot
    cases hread : Image.ofBytes data with
    | error e => exact ⟨e, rfl, Image.not_escapes_of_ofBytes hread⟩
    | ok img => exact absurd (ofBytes_eq_ok_iff.mp hread).1 hnot

/-- The headers of a .NET assembly of 32 bits with one section, and nothing behind them: a DOS
header, the signature and the COFF header, an optional header that declares fifteen directories, of
which only the last has an address, and the header of the section. -/
def smallAssembly : Bytes :=
  ([0x4D, 0x5A] ++ List.replicate 58 0 ++ [64, 0, 0, 0]
    ++ [0x50, 0x45, 0, 0] ++ [0x4C, 1, 1, 0] ++ List.replicate 12 0 ++ [216, 0, 2, 1]
    ++ [0x0B, 1] ++ List.replicate 90 0 ++ [15, 0, 0, 0]
    ++ List.replicate 112 0 ++ [0, 32, 0, 0, 72, 0, 0, 0]
    ++ List.replicate 40 0 : List UInt8).toArray

/-- One section is read, and the fifteenth directory makes the file an assembly. -/
theorem smallAssembly_read :
    HasHeaders smallAssembly
      ∧ ∃ img, Image.ofBytes smallAssembly = .ok img ∧ img.sections.length = 1
        ∧ img.hasClrMetadata = true := by
  have hoptional : HasOptional smallAssembly .pe32 := {
    magic := by decide +kernel
    room := by decide +kernel
    within := by decide +kernel }
  have hfits : HasHeaders smallAssembly := {
    dosHeader := by decide +kernel
    mark := by decide +kernel
    signature := by decide +kernel
    coffHeader := by decide +kernel
    optionalHeader := .inr ⟨.pe32, hoptional⟩
    count := by decide +kernel
    sections := by decide +kernel }
  have htotal : sectionTotal smallAssembly = 1 := by decide +kernel
  obtain ⟨img, hok, hlength, -, -, -, hclr⟩ :=
    (image_read_exactly_when_headers_fit smallAssembly).1 hfits
  refine ⟨hfits, img, hok, hlength.trans htotal, hclr.mpr ⟨.pe32, hoptional, ?_, ?_⟩⟩
  · decide +kernel
  · decide +kernel

end Provenance.Pe
