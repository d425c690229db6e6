import Provenance.Proofs.MachO.Commands

/-!
# Files that are images

Which files are Mach-O images of one architecture, told from the bytes at each place and not from a
run of the reader, and what such an image holds.

* `HasCommands` — a file has the header of an image in a byte order, and each of its load commands
  fits.
* `detectByteOrder_of_magic` — no file has the first word of an image in both byte orders;
  `detectByteOrder_eq_ok_iff` — the first word shows the byte order and the width of addresses.
* `image_read_exactly_when_commands_fit` — the reader accepts these files and no other, and finds
  what each command says by itself.
-/

namespace Provenance.MachO

/-! ## Header -/

section Places

variable (data : Bytes) (order : ByteOrder)

/-- The size of the header: with 64-bit addresses a reserved word stands behind it. -/
def startPlace : Nat := if data.number order 0 4 = machOMagic64 then 32 else 28

/-- How many load commands the header announces. -/
def commandCount : Nat := data.number order 16 4

/-- The size that the header gives all load commands. -/
def commandsSize : Nat := data.number order 20 4

/-- The place behind the room of the load commands. -/
def stopPlace : Nat := startPlace data order + commandsSize data order

/-- The place of the load command of a given number. -/
def commandPlace (i : Nat) : Nat := (nextPlace data order)^[i] (startPlace data order)

/-- A file has the header of an image in a byte order, and each load command fits. -/
structure HasCommands : Prop where
  magic : data.number order 0 4 = machOMagic32 ∨ data.number order 0 4 = machOMagic64
  header : 28 ≤ data.size
  count : commandCount data order ≤ 65536
  room : stopPlace data order ≤ data.size
  commands : ∀ i < commandCount data order,
    CommandFits data order (stopPlace data order) (commandPlace data order i)

theorem header_magic : ((Header.codec order).recordAt data 0).magic = data.number order 0 4 :=
  Word.decode_drop_take .u32 order data 0 28 0 rfl (by decide)

theorem header_commandCount :
    ((Header.codec order).recordAt data 0).commandCount = commandCount data order := by
  simp only [Codec.recordAt, Header.codec, Layout.decode, List.drop_drop]
  exact Word.decode_drop_take .u32 order data 0 28 16 rfl (by decide)

theorem header_commandsSize :
    ((Header.codec order).recordAt data 0).commandsSize = commandsSize data order := by
  simp only [Codec.recordAt, Header.codec, Layout.decode, List.drop_drop]
  exact Word.decode_drop_take .u32 order data 0 28 20 rfl (by decide)

end Places

/-- The header is as long as its magic number says. -/
theorem Header.size_eq {h : Header} {data : Bytes} {order : ByteOrder}
    (hmagic : h.magic = data.number order 0 4) : h.size = startPlace data order := by
  unfold Header.size startPlace Header.is64Bit
  rw [hmagic]
  by_cases hm : data.number order 0 4 = machOMagic64
  · simp [hm]
  · have : ¬ (data.number order 0 4 : Int) = machOMagic64 := by exact_mod_cast hm
    simp [hm, this]

/-!
## Byte order

The first word is read in both orders, and the order in which it is a magic number is that of the
file. No magic number is one in the other order as well, so that the order is told by the file
alone.
-/

/-- The first word of a file reads differently in the two byte orders. -/
theorem number_big_of_little {data : Bytes} {n : Nat} (hsize : 4 ≤ data.size)
    (h : data.number .little 0 4 = n) :
    data.number .big 0 4 = ByteOrder.big.decode (ByteOrder.little.encode 4 n) := by
  have hlength : (data.extract 0 (0 + 4)).toList.length = 4 := by
    rw [Array.length_toList, Array.size_extract]
    omega
  -- the little-endian number gives the four bytes back, and these spell the big-endian one
  have hencode := ByteOrder.little.encode_decode (data.extract 0 (0 + 4)).toList
  rw [hlength] at hencode
  unfold Bytes.number at h ⊢
  rw [← h, hencode]

/-- A word is that of an image, and shows the width of its addresses. -/
def magicWidth? (word : Nat) : Option AddressWidth :=
  if word = machOMagic32 then some .bits32
  else if word = machOMagic64 then some .bits64
  else none

/-- A word that shows a width is one of the two magic numbers. -/
theorem magicWidth?_isSome_iff {word : Nat} :
    (magicWidth? word).isSome ↔ word = machOMagic32 ∨ word = machOMagic64 := by
  unfold magicWidth?
  split
  next h32 => simp [h32]
  next h32 =>
    split
    next h64 => simp [h64]
    next h64 => simp [h32, h64]

/-- The first word decides the byte order, the most significant byte first being tried first. -/
theorem detectByteOrder_eq {data : Bytes} (hsize : 4 ≤ data.size) :
    detectByteOrder data =
      match magicWidth? (data.number .big 0 4), magicWidth? (data.number .little 0 4) with
      | some width, _ => .ok (.big, width)
      | none, some width => .ok (.little, width)
      | none, none => .error (.badMagic (data.extract 0 4).toList) := by
  -- the reader compares with both magic words itself
  have hwidth : ∀ order : ByteOrder,
      (if order.decode (data.extract 0 4).toList = machOMagic32 then
          some (order, AddressWidth.bits32)
        else if order.decode (data.extract 0 4).toList = machOMagic64 then
          some (order, AddressWidth.bits64)
        else none)
      = (magicWidth? (data.number order 0 4)).map (order, ·) := by
    intro order
    unfold magicWidth? Bytes.number
    split
    · rfl
    · split <;> rfl
  rw [detectByteOrder, if_neg (by omega)]
  simp only [List.findSome?, hwidth]
  cases magicWidth? (data.number .big 0 4) <;> cases magicWidth? (data.number .little 0 4) <;> rfl

/-- The magic word of an image is one in its own byte order only. -/
theorem detectByteOrder_of_magic {data : Bytes} {order : ByteOrder} (hsize : 4 ≤ data.size)
    (h : data.number order 0 4 = machOMagic32 ∨ data.number order 0 4 = machOMagic64) :
    ∃ width, detectByteOrder data = .ok (order, width) := by
  obtain ⟨width, hwidth⟩ := Option.isSome_iff_exists.mp (magicWidth?_isSome_iff.mpr h)
  refine ⟨width, ?_⟩
  rw [detectByteOrder_eq hsize]
  cases order with
  | big => rw [hwidth]
  | little =>
    -- the other byte order is tried first, and sees the magic word backwards
    have hbig : magicWidth? (data.number .big 0 4) = none := by
      rcases h with h | h
      · rw [number_big_of_little hsize h]
        decide
      · rw [number_big_of_little hsize h]
        decide
    rw [hbig, hwidth]

/-- A detected byte order is one in which the first word is that of an image. -/
theorem magic_of_detectByteOrder {data : Bytes} {order : ByteOrder} {width : AddressWidth}
    (hsize : 4 ≤ data.size) (h : detectByteOrder data = .ok (order, width)) :
    data.number order 0 4 = machOMagic32 ∨ data.number order 0 4 = machOMagic64 := by
  apply magicWidth?_isSome_iff.mp
  rw [detectByteOrder_eq hsize] at h
  split at h
  -- the first order is found if its word is magic, the second one if only its own is
  next w _ hbig =>
    cases h
    rw [hbig]
    rfl
  next w _ hlittle =>
    cases h
    rw [hlittle]
    rfl
  next => cases h

/-- The first word of an image with addresses of some width. -/
def AddressWidth.magic : AddressWidth → Nat
  | bits32 => machOMagic32
  | bits64 => machOMagic64

section Image

variable {data : Bytes} {order : ByteOrder}

/-- The header at the start of a file. -/
def headerOf (data : Bytes) (order : ByteOrder) : Header := (Header.codec order).recordAt data 0

theorem headerOf_size : (headerOf data order).size = startPlace data order :=
  Header.size_eq (header_magic data order)

/-- The header is read exactly when the file has 28 bytes. -/
theorem Header.decode_eq :
    Header.decode order data =
      if 28 ≤ data.size then .ok (headerOf data order) else .error (.headerTooShort data.size) := by
  have h := (Header.codec order).readOr_eq data 0 (RecordError.headerTooShort data.size) .outside
  have hsize : (Header.codec order).size = 28 := rfl
  rwa [hsize, Nat.zero_add] at h

/-- The commands are read once their number and their room have been checked. -/
theorem Image.readCommands_eq :
    Image.readCommands data order (headerOf data order) =
      if 65536 < commandCount data order then
        .error (.tooManyCommands (commandCount data order))
      else if data.size < stopPlace data order then
        .error (.commandsCutOff (stopPlace data order) data.size)
      else
        Command.readAll data order (stopPlace data order) (commandCount data order) 0
          (startPlace data order) [] := by
  have hcount : (headerOf data order).commandCount = commandCount data order :=
    header_commandCount data order
  have hsize : (headerOf data order).commandsSize = commandsSize data order :=
    header_commandsSize data order
  have hstop : (startPlace data order : Int) + commandsSize data order
      = (stopPlace data order : Nat) := (Int.natCast_add ..).symm
  -- places are natural numbers, so that the checks are those of natural numbers
  have hmany : maxCommands < (commandCount data order : Int) ↔ 65536 < commandCount data order := by
    unfold maxCommands
    omega
  simp only [Image.readCommands, headerOf_size, hcount, hsize, hstop, hmany, Int.toNat_natCast,
    Int.ofNat_lt]

/-- Commands that fit are read, each at its place. -/
theorem Image.readCommands_of_hasCommands (h : HasCommands data order) :
    Image.readCommands data order (headerOf data order)
      = .ok ((List.range (commandCount data order)).map fun i =>
          commandOf data order (commandPlace data order i)) := by
  rw [Image.readCommands_eq, if_neg (Nat.not_lt.mpr h.count), if_neg (Nat.not_lt.mpr h.room),
    Command.readAll_of_fits h.room h.commands]
  rfl

/-- Commands that do not fit are refused, for their number, for their room, or one of them. -/
theorem Image.exists_error_of_readCommands (hsize : 28 ≤ data.size)
    (hmagic : data.number order 0 4 = machOMagic32 ∨ data.number order 0 4 = machOMagic64)
    (h : ¬ HasCommands data order) :
    ∃ e, Image.readCommands data order (headerOf data order) = .error e ∧ e.misread? = none := by
  rw [Image.readCommands_eq]
  by_cases hmany : 65536 < commandCount data order
  · rw [if_pos hmany]
    exact ⟨_, rfl, rfl⟩
  rw [if_neg hmany]
  by_cases hcut : data.size < stopPlace data order
  · rw [if_pos hcut]
    exact ⟨_, rfl, rfl⟩
  rw [if_neg hcut]
  have hroom : stopPlace data order ≤ data.size := Nat.not_lt.mp hcut
  -- all is well with the header, so that one of the commands does not fit
  have hbad : ∃ i < commandCount data order,
      ¬ CommandFits data order (stopPlace data order) (commandPlace data order i) :=
    Classical.byContradiction fun hnone =>
      h ⟨hmagic, hsize, Nat.not_lt.mp hmany, hroom, fun i hi =>
        Classical.byContradiction fun hfits => hnone ⟨i, hi, hfits⟩⟩
  exact Command.exists_error_of_readAll hroom hbad 0 []

/-- A file with commands that fit is read as the image that they make up. -/
theorem Image.ofBytes_of_hasCommands (h : HasCommands data order) :
    Image.ofBytes data
      = .ok (Image.ofCommands order (headerOf data order)
          ((List.range (commandCount data order)).map fun i =>
            commandOf data order (commandPlace data order i))) := by
  have hsize := h.header
  obtain ⟨width, hdetect⟩ := detectByteOrder_of_magic (by omega) h.magic
  rw [Image.ofBytes, hdetect]
  simp only [mapError_ok, bind, Except.bind]
  rw [Header.decode_eq, if_pos hsize]
  simp only [mapError_ok, Image.readCommands_of_hasCommands h]
  rfl

/-- A file without such commands is refused: there is no magic number, no header, or no fit. -/
theorem Image.exists_error_of_ofBytes (h : ∀ order, ¬ HasCommands data order) :
    ∃ e, Image.ofBytes data = .error e ∧ e.misread? = none := by
  rw [Image.ofBytes]
  by_cases hword : data.size < 4
  · rw [detectByteOrder, if_pos hword]
    exact ⟨_, rfl, rfl⟩
  -- the byte order is detected first, and all else is read in it
  cases hdetect : detectByteOrder data with
  | error e =>
    rw [detectByteOrder_eq (by omega)] at hdetect
    split at hdetect
    next => cases hdetect
    next => cases hdetect
    next =>
      cases hdetect
      exact ⟨_, rfl, rfl⟩
  | ok found =>
    obtain ⟨order, width⟩ := found
    have hmagic := magic_of_detectByteOrder (by omega) hdetect
    simp only [mapError_ok, bind, Except.bind]
    rw [Header.decode_eq]
    by_cases hsize : 28 ≤ data.size
    · rw [if_pos hsize]
      obtain ⟨e, he, hmisread⟩ := Image.exists_error_of_readCommands hsize hmagic (h order)
      simp only [mapError_ok, he]
      exact ⟨e, rfl, hmisread⟩
    · -- the file has a magic word and ends within the header
      rw [if_neg hsize]
      exact ⟨_, rfl, rfl⟩

/-- A file that is no image is refused for a reason of its own. -/
theorem Image.misread?_of_ofBytes {e : ImageError} (h : Image.ofBytes data = .error e) :
    e.misread? = none := by
  by_cases hcommands : ∃ order, HasCommands data order
  · obtain ⟨order, hcommands⟩ := hcommands
    cases (Image.ofBytes_of_hasCommands hcommands).symm.trans h
  · obtain ⟨e', he, hmisread⟩ := Image.exists_error_of_ofBytes (not_exists.mp hcommands)
    cases he.symm.trans h
    exact hmisread

end Image

/-- What the load commands say, each told from its own bytes, in order. -/
def ownCommands (data : Bytes) (order : ByteOrder) : List Command :=
  (List.range (commandCount data order)).map fun i =>
    commandOf (commandBytes data order (commandPlace data order i)) order 0

/-- A file is read as an image exactly when it has the header of one and its load commands, each
starting where the one before it ends, fit into the room that the header gives them; any other file
is refused. The image then holds what each command says by itself, in order, and the records that
the commands hold take no more room than the header gives. -/
theorem image_read_exactly_when_commands_fit (data : Bytes) :
    (∀ order, HasCommands data order →
      ∃ img, Image.ofBytes data = .ok img ∧ img.order = order
        ∧ img.header = (Header.codec order).recordAt data 0
        ∧ img.segments = (ownCommands data order).filterMap (·.segment?)
        ∧ img.sections = (ownCommands data order).flatMap (·.sections)
        ∧ img.libraries = (ownCommands data order).filterMap (·.library?)
        ∧ totalFootprint data order (startPlace data order) (commandCount data order)
            ≤ commandsSize data order)
    ∧ ((∀ order, ¬ HasCommands data order) →
      ∃ e, Image.ofBytes data = .error e ∧ e.misread? = none) := by
  refine ⟨fun order h => ?_, Image.exists_error_of_ofBytes⟩
  -- no command looks at bytes that are not its own
  have hown : ownCommands data order = (List.range (commandCount data order)).map fun i =>
      commandOf data order (commandPlace data order i) :=
    List.map_congr_left fun i hi => commandOf_commandBytes (h.commands i (List.mem_range.mp hi))
  have hsum := add_totalFootprint_le h.commands
  have hend := iterate_nextPlace_le (Nat.le_add_right _ _) h.commands
  refine ⟨_, Image.ofBytes_of_hasCommands h, rfl, rfl, ?_, ?_, ?_, ?_⟩
  · rw [hown]
    rfl
  · rw [hown]
    rfl
  · rw [hown]
    rfl
  · -- the records end before the last command does, and that within the room of the header
    have hstop : stopPlace data order = startPlace data order + commandsSize data order := rfl
    omega

end Provenance.MachO
