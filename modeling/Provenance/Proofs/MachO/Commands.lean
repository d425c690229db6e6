import Mathlib.Logic.Function.Iterate
import Provenance.Proofs.Failures
import Provenance.Proofs.Reading

/-!
# Load commands

What the load command at a place of a Mach-O file says, and when the reader gets through a run of
commands, both told from the bytes at each place.

* `CommandFits` — the load command at a place has room for what it announces.
* `commandOf` — what the load command at a place says; it depends on the bytes of the command
  alone (`commandOf_commandBytes`).
* `Command.read_of_fits`, `Command.exists_error_of_read` — one command is read exactly when it fits.
* `Command.readAll_of_fits`, `Command.exists_error_of_readAll` — so is a run of commands, by
  induction on their number. Each command starts where the one before it ends.
* `add_totalFootprint_le` — the records that the commands hold do not take more room than the
  commands.
-/

namespace Provenance.MachO

/-!
## Words at a place

What a command says is told here from the numbers and names at places of the file, without the
reader. The place of the next command is where the size of this one ends.
-/

/-- The size of a segment command without its sections. -/
def AddressWidth.segmentSize : AddressWidth → Nat
  | bits32 => 56
  | bits64 => 72

/-- The size of a section record. -/
def AddressWidth.sectionSize : AddressWidth → Nat
  | bits32 => 68
  | bits64 => 80

/-- The size of the fixed part of a command that names a library. -/
def librarySize : Nat := 24

section Words

variable (data : Bytes) (order : ByteOrder)

/-- The word that tells what the load command at a place is. -/
def commandAt (place : Nat) : Nat := data.number order place 4

/-- The size that the load command at a place gives itself. -/
def sizeAt (place : Nat) : Nat := data.number order (place + 4) 4

/-- How many sections the segment command at a place announces. -/
def sectionCountAt (width : AddressWidth) (place : Nat) : Nat :=
  data.number order (place + (width.segmentSize - 8)) 4

/-- Where in the command at a place the name of its library starts. -/
def nameOffsetAt (place : Nat) : Nat := data.number order (place + 8) 4

/-- The place behind the load command at a place. -/
def nextPlace (place : Nat) : Nat := place + sizeAt data order place

/-- The segment that the command at a place holds. -/
def segmentAt (width : AddressWidth) (place : Nat) : Segment :=
  .ofRow width ((Codec.rows (Segment.layout width) order).recordAt data (place + 8))

/-- The section whose record stands at a place. -/
def sectionAt (width : AddressWidth) (place : Nat) : Section :=
  .ofRow width ((Codec.rows (Section.layout width) order).recordAt data place)

/-- The library that the command at a place names. Its name ends with the command at the latest. -/
def libraryAt (place : Nat) : Library :=
  let c := (LibraryCommand.codec order).recordAt data place
  let path := data.extract (place + nameOffsetAt data order place) (nextPlace data order place)
  ⟨c.command, utf8Text (path.toList.takeWhile (· ≠ 0)), c.timestamp, c.currentVersion,
    c.compatibilityVersion⟩

/-- What the load command at a place says. -/
def commandOf (place : Nat) : Command :=
  match LoadCommand.segmentWidth? (commandAt data order place) with
  | some width =>
    .segment (segmentAt data order width place)
      ((List.range (sectionCountAt data order width place)).map fun i =>
        sectionAt data order width (place + width.segmentSize + i * width.sectionSize))
  | none =>
    if (commandAt data order place : Int) ∈ LoadCommand.libraryCommands then
      .library (libraryAt data order place)
    else .other

/-- The bytes of the load command at a place. -/
def commandBytes (place : Nat) : Bytes := data.extract place (nextPlace data order place)

/-- How many bytes of the load command at a place are records that it holds. -/
def footprint (place : Nat) : Nat :=
  match LoadCommand.segmentWidth? (commandAt data order place) with
  | some width =>
    width.segmentSize + (commandOf data order place).sections.length * width.sectionSize
  | none => if (commandOf data order place).library?.isSome then librarySize else 0

/-- How many bytes of a run of load commands are records that they hold. -/
def totalFootprint (start : Nat) : Nat → Nat
  | 0 => 0
  | count + 1 =>
    totalFootprint start count + footprint data order ((nextPlace data order)^[count] start)

/-- The load command at a place has room for what it announces, and ends at `stop` at the latest. -/
structure CommandFits (stop place : Nat) : Prop where
  head : place + 8 ≤ stop
  size : 8 ≤ sizeAt data order place
  room : nextPlace data order place ≤ stop
  sections : ∀ width, LoadCommand.segmentWidth? (commandAt data order place) = some width →
    width.segmentSize + sectionCountAt data order width place * width.sectionSize
      ≤ sizeAt data order place
  name : (commandAt data order place : Int) ∈ LoadCommand.libraryCommands →
    librarySize ≤ sizeAt data order place ∧
      nameOffsetAt data order place < sizeAt data order place

end Words

theorem natCast_nextPlace (data : Bytes) (order : ByteOrder) (place : Nat) :
    ((nextPlace data order place : Nat) : Int) = place + sizeAt data order place :=
  Int.natCast_add ..

/-! ## Sizes -/

theorem Segment.commandSize_eq (width : AddressWidth) :
    Segment.commandSize width = (width.segmentSize : Int) := by
  cases width <;> rfl

theorem Section.recordSize_eq (width : AddressWidth) :
    Section.recordSize width = (width.sectionSize : Int) := by
  cases width <;> rfl

/-- The head of a command and the rest of a segment command make up a segment command. -/
theorem Segment.head_add_size (width : AddressWidth) (order : ByteOrder) :
    8 + (Codec.rows (Segment.layout width) order).size = width.segmentSize := by
  cases width <;> rfl

theorem Section.size_eq (width : AddressWidth) (order : ByteOrder) :
    (Codec.rows (Section.layout width) order).size = width.sectionSize := by
  cases width <;> rfl

theorem AddressWidth.eight_le_segmentSize (width : AddressWidth) : 8 ≤ width.segmentSize := by
  cases width <;> decide

/-- A section record of a segment that fits ends within the room of the segment. -/
theorem AddressWidth.section_end_le {width : AddressWidth} {i count room : Nat} (hi : i < count)
    (hfits : width.segmentSize + count * width.sectionSize ≤ room) :
    width.segmentSize + i * width.sectionSize + width.sectionSize ≤ room := by
  have hlast : (i + 1) * width.sectionSize ≤ count * width.sectionSize :=
    Nat.mul_le_mul_right _ hi
  rw [Nat.add_mul, Nat.one_mul] at hlast
  omega

/-! ## Records at a place -/

section Records

variable (data : Bytes) (order : ByteOrder) (place : Nat)

theorem loadCommand_command :
    ((LoadCommand.codec order).recordAt data place).command = commandAt data order place :=
  Word.decode_drop_take .u32 order data place 8 0 rfl (by decide)

theorem loadCommand_size :
    ((LoadCommand.codec order).recordAt data place).size = sizeAt data order place :=
  Word.decode_drop_take .u32 order data place 8 4 rfl (by decide)

theorem libraryCommand_size :
    ((LibraryCommand.codec order).recordAt data place).size = sizeAt data order place :=
  Word.decode_drop_take .u32 order data place 24 4 rfl (by decide)

/-- The third word of a library command tells where the name starts. -/
theorem libraryCommand_nameOffset :
    ((LibraryCommand.codec order).recordAt data place).nameOffset
      = nameOffsetAt data order place := by
  simp only [Codec.recordAt, LibraryCommand.codec, Layout.decode, List.drop_drop]
  exact Word.decode_drop_take .u32 order data place 24 8 rfl (by decide)

/-- A segment command announces its sections with its last word but one. -/
theorem segmentAt_sectionCount (width : AddressWidth) :
    (segmentAt data order width place).sectionCount = sectionCountAt data order width place := by
  cases width with
  | bits32 =>
    simp only [segmentAt, Codec.recordAt, Codec.rows, Segment.layout, Segment.ofRow, Layout.decode,
      List.drop_drop, id]
    exact Word.decode_drop_take .u32 order data (place + 8) 48 40 rfl (by decide)
  | bits64 =>
    simp only [segmentAt, Codec.recordAt, Codec.rows, Segment.layout, Segment.ofRow, Layout.decode,
      List.drop_drop, id]
    exact Word.decode_drop_take .u32 order data (place + 8) 64 56 rfl (by decide)

end Records

/-- The head of a load command is read exactly when it ends within the data. -/
theorem LoadCommand.decode_natCast (order : ByteOrder) (data : Bytes) (place : Nat) :
    LoadCommand.decode order data place =
      if place + 8 ≤ data.size then .ok ((LoadCommand.codec order).recordAt data place)
      else .error (.tooShort .loadCommand) :=
  Codec.readOr_eq (LoadCommand.codec order) data place _ _

/-- A segment is read exactly when its command ends within the data. -/
theorem Segment.decode_natCast (order : ByteOrder) (width : AddressWidth) (data : Bytes)
    (place : Nat) :
    Segment.decode order width data place =
      if place + width.segmentSize ≤ data.size then .ok (segmentAt data order width place)
      else .error (.tooShort .segmentCommand) := by
  have hplace : (place : Int) + LoadCommand.headSize = ((place + 8 : Nat) : Int) := rfl
  rw [Segment.decode, hplace, read, Codec.readOr_eq, Nat.add_assoc, Segment.head_add_size]
  split <;> rfl

/-- A section is read exactly when its record ends within the data. -/
theorem Section.decode_natCast (order : ByteOrder) (width : AddressWidth) (data : Bytes)
    (place : Nat) :
    Section.decode order width data place =
      if place + width.sectionSize ≤ data.size then .ok (sectionAt data order width place)
      else .error (.tooShort .sectionRecord) := by
  rw [Section.decode, read, Codec.readOr_eq, Section.size_eq]
  split <;> rfl

/-- A library is read exactly when its name starts within its command. -/
theorem Library.decode_natCast (order : ByteOrder) (data : Bytes) (place : Nat)
    (hsize : place + librarySize ≤ data.size) :
    Library.decode order data place =
      if nameOffsetAt data order place < sizeAt data order place then
        .ok (libraryAt data order place)
      else .error (.nameOffset (nameOffsetAt data order place) (sizeAt data order place)) := by
  have hread : read (LibraryCommand.codec order) .libraryCommand data place
      = .ok ((LibraryCommand.codec order).recordAt data place) := by
    rw [read, Codec.readOr_eq]
    exact if_pos hsize
  rw [Library.decode, hread]
  simp only [bind, Except.bind, libraryCommand_size, libraryCommand_nameOffset]
  by_cases h : nameOffsetAt data order place < sizeAt data order place
  · rw [if_pos h, if_neg (by omega)]
    -- the name runs to the end of the command, which is where the next one starts
    have hpath : data.slice (place + nameOffsetAt data order place)
          (place + sizeAt data order place)
        = data.extract (place + nameOffsetAt data order place) (nextPlace data order place) := by
      rw [← natCast_nextPlace, ← Int.natCast_add]
      exact data.slice_natCast _ _
    rw [hpath]
    rfl
  · rw [if_neg h, if_pos (by omega)]

/-!
## One command

The reader of one command goes through exactly when the command fits, and then the command says what
stands at its place; the commands of a file follow by induction on their number.
-/

/-- A segment is no library. -/
theorem not_mem_libraryCommands {command : Int} {width : AddressWidth}
    (h : LoadCommand.segmentWidth? command = some width) :
    command ∉ LoadCommand.libraryCommands := by
  unfold LoadCommand.segmentWidth? at h
  split at h
  next h1 =>
    rw [h1]
    decide
  next =>
    split at h
    next h2 =>
      rw [h2]
      decide
    next => cases h

section Command

variable {data : Bytes} {order : ByteOrder} {stop place : Nat}

/-- A segment command fits when its sections do. -/
theorem CommandFits.of_segment {width : AddressWidth}
    (hwidth : LoadCommand.segmentWidth? (commandAt data order place) = some width)
    (hhead : place + 8 ≤ stop) (hsize : 8 ≤ sizeAt data order place)
    (hroom : nextPlace data order place ≤ stop)
    (hfits : width.segmentSize + sectionCountAt data order width place * width.sectionSize
      ≤ sizeAt data order place) :
    CommandFits data order stop place where
  head := hhead
  size := hsize
  room := hroom
  sections := by
    intro width' hwidth'
    rw [hwidth] at hwidth'
    cases hwidth'
    exact hfits
  name := fun hlibrary => absurd hlibrary (not_mem_libraryCommands hwidth)

/-- A command that is no segment fits when the name of its library does, should it have one. -/
theorem CommandFits.of_not_segment
    (hwidth : LoadCommand.segmentWidth? (commandAt data order place) = none)
    (hhead : place + 8 ≤ stop) (hsize : 8 ≤ sizeAt data order place)
    (hroom : nextPlace data order place ≤ stop)
    (hname : (commandAt data order place : Int) ∈ LoadCommand.libraryCommands →
      librarySize ≤ sizeAt data order place ∧
        nameOffsetAt data order place < sizeAt data order place) :
    CommandFits data order stop place where
  head := hhead
  size := hsize
  room := hroom
  sections := by
    intro width hsome
    rw [hwidth] at hsome
    cases hsome
  name := hname

/-- A segment with room for its sections is read with all of them. -/
theorem Command.readSegment_of_fits {width : AddressWidth} {size : Nat}
    (hroom : place + size ≤ data.size)
    (hfits : width.segmentSize + sectionCountAt data order width place * width.sectionSize ≤ size) :
    Command.readSegment data order width place size =
      .ok (.segment (segmentAt data order width place)
        ((List.range (sectionCountAt data order width place)).map fun i =>
          sectionAt data order width (place + width.segmentSize + i * width.sectionSize))) := by
  have hsegment : Segment.decode order width data place
      = .ok (segmentAt data order width place) := by
    rw [Segment.decode_natCast, if_pos (by omega)]
  -- each section is read from its own place
  have hsections : (List.range (sectionCountAt data order width place)).mapM (fun (i : Nat) =>
      (Section.decode order width data
        (place + Segment.commandSize width + i * Section.recordSize width)).mapError
          ImageError.record)
      = .ok ((List.range (sectionCountAt data order width place)).map fun i =>
          sectionAt data order width (place + width.segmentSize + i * width.sectionSize)) := by
    apply mapM_eq_ok_of_forall
    intro i hi
    -- the record ends within the command, and that within the file
    have hend := AddressWidth.section_end_le (List.mem_range.mp hi) hfits
    have hplace : (place : Int) + Segment.commandSize width + i * Section.recordSize width
        = ((place + width.segmentSize + i * width.sectionSize : Nat) : Int) := by
      rw [Segment.commandSize_eq, Section.recordSize_eq]
      push_cast
      rfl
    rw [hplace, Section.decode_natCast, if_pos (by omega), mapError_ok]
  -- the room of the sections is what the reader compares with
  have hguard : ¬ (size : Int) < Segment.commandSize width
      + sectionCountAt data order width place * Section.recordSize width := by
    rw [Segment.commandSize_eq, Section.recordSize_eq]
    exact_mod_cast Nat.not_lt.mpr hfits
  rw [Command.readSegment, hsegment]
  simp only [mapError_ok, bind, Except.bind, segmentAt_sectionCount, Int.toNat_natCast]
  rw [if_neg hguard, hsections]
  rfl

/-- A segment without room for its sections is refused. -/
theorem Command.exists_error_of_readSegment {width : AddressWidth} {size : Nat}
    (hfits :
      ¬ width.segmentSize + sectionCountAt data order width place * width.sectionSize ≤ size) :
    ∃ e, Command.readSegment data order width place size = .error e ∧ e.misread? = none := by
  rw [Command.readSegment, Segment.decode_natCast]
  by_cases hroom : place + width.segmentSize ≤ data.size
  · -- the segment itself is read, and the room of its sections is checked before any of them
    have hguard : (size : Int) < Segment.commandSize width
        + sectionCountAt data order width place * Section.recordSize width := by
      rw [Segment.commandSize_eq, Section.recordSize_eq]
      exact_mod_cast Nat.not_le.mp hfits
    rw [if_pos hroom]
    simp only [mapError_ok, bind, Except.bind, segmentAt_sectionCount]
    rw [if_pos hguard]
    exact ⟨_, rfl, rfl⟩
  · rw [if_neg hroom]
    exact ⟨_, rfl, rfl⟩

/-- What the reader makes of a command at a place, once its size has been looked at. -/
def Command.readSized (data : Bytes) (order : ByteOrder) (place : Nat) :
    Except ImageError (Command × Int) :=
  match LoadCommand.segmentWidth? (commandAt data order place) with
  | some width =>
    (Command.readSegment data order width place (sizeAt data order place)).map
      (·, (sizeAt data order place : Int))
  | none =>
    if (commandAt data order place : Int) ∉ LoadCommand.libraryCommands then
      .ok (.other, (sizeAt data order place : Int))
    else if sizeAt data order place < librarySize then
      .error (.record (.tooShort .libraryCommand))
    else
      ((Library.decode order data place).mapError ImageError.record).map
        (.library ·, (sizeAt data order place : Int))

/-- The size of a command is looked at first, then what it is. -/
theorem Command.read_natCast (hstop : stop ≤ data.size) (index : Nat) :
    Command.read data order stop index place =
      if stop < place + 8 then .error (.commandCutOff index place)
      else if sizeAt data order place < 8 ∨ stop < nextPlace data order place then
        .error (.commandSize index (sizeAt data order place))
      else Command.readSized data order place := by
  -- the comparisons of the reader, in natural numbers
  have hcut : (stop : Int) < place + LoadCommand.headSize ↔ stop < place + 8 := by
    unfold LoadCommand.headSize
    omega
  have hsize : ((sizeAt data order place : Int) < LoadCommand.headSize
        ∨ (stop : Int) < place + sizeAt data order place)
      ↔ sizeAt data order place < 8 ∨ stop < nextPlace data order place := by
    unfold LoadCommand.headSize nextPlace
    omega
  have hfixed : (sizeAt data order place : Int) < (LibraryCommand.codec order).size
      ↔ sizeAt data order place < librarySize :=
    Int.ofNat_lt
  rw [Command.read]
  simp only [hcut]
  by_cases hhead : stop < place + 8
  · rw [if_pos hhead, if_pos hhead]
  · rw [if_neg hhead, if_neg hhead, LoadCommand.decode_natCast, if_pos (by omega)]
    simp only [mapError_ok, bind, Except.bind, loadCommand_command, loadCommand_size, hsize, hfixed]
    rfl

/-- A command that fits is read, and the next one starts behind it. -/
theorem Command.read_of_fits (hstop : stop ≤ data.size) (h : CommandFits data order stop place)
    (index : Nat) :
    Command.read data order stop index place
      = .ok (commandOf data order place, (sizeAt data order place : Int)) := by
  have hhead := h.head
  have hsize := h.size
  have hroom := h.room
  have hend : place + sizeAt data order place ≤ data.size := Nat.le_trans hroom hstop
  -- the size is in order, so that the kind of the command decides
  rw [Command.read_natCast hstop, if_neg (by omega), if_neg (by omega)]
  unfold Command.readSized commandOf
  cases hwidth : LoadCommand.segmentWidth? (commandAt data order place) with
  | some width =>
    simp only [Command.readSegment_of_fits hend (h.sections width hwidth)]
    rfl
  | none =>
    -- a command that names a library, or one that nothing is read of
    by_cases hlibrary : (commandAt data order place : Int) ∈ LoadCommand.libraryCommands
    · obtain ⟨hleast, hname⟩ := h.name hlibrary
      have hdecode : Library.decode order data place = .ok (libraryAt data order place) := by
        rw [Library.decode_natCast order data place (by omega), if_pos hname]
      simp only [if_neg (not_not.mpr hlibrary), if_neg (Nat.not_lt.mpr hleast), if_pos hlibrary,
        hdecode]
      rfl
    · simp only [if_pos hlibrary, if_neg hlibrary]

/-- A command that does not fit is refused. -/
theorem Command.exists_error_of_read (hstop : stop ≤ data.size)
    (h : ¬ CommandFits data order stop place) (index : Nat) :
    ∃ e, Command.read data order stop index place = .error e ∧ e.misread? = none := by
  rw [Command.read_natCast hstop]
  by_cases hcut : stop < place + 8
  · rw [if_pos hcut]
    exact ⟨_, rfl, rfl⟩
  rw [if_neg hcut]
  by_cases hsize : sizeAt data order place < 8 ∨ stop < nextPlace data order place
  · rw [if_pos hsize]
    exact ⟨_, rfl, rfl⟩
  rw [if_neg hsize]
  -- the command has a size that fits, so that what it announces does not
  have hhead : place + 8 ≤ stop := Nat.not_lt.mp hcut
  have hleast : 8 ≤ sizeAt data order place := by omega
  have hroom : nextPlace data order place ≤ stop := by omega
  unfold Command.readSized
  cases hwidth : LoadCommand.segmentWidth? (commandAt data order place) with
  | some width =>
    have hsections : ¬ width.segmentSize
        + sectionCountAt data order width place * width.sectionSize
        ≤ sizeAt data order place := by
      intro hfits
      exact h (.of_segment hwidth hhead hleast hroom hfits)
    obtain ⟨e, he, hmisread⟩ := Command.exists_error_of_readSegment hsections
    simp only [he]
    exact ⟨e, rfl, hmisread⟩
  | none =>
    by_cases hlibrary : (commandAt data order place : Int) ∈ LoadCommand.libraryCommands
    · simp only [if_neg (not_not.mpr hlibrary)]
      by_cases hfixed : sizeAt data order place < librarySize
      · rw [if_pos hfixed]
        exact ⟨_, rfl, rfl⟩
      · have hroomy : librarySize ≤ sizeAt data order place := Nat.not_lt.mp hfixed
        have hend : place + sizeAt data order place ≤ data.size := Nat.le_trans hroom hstop
        have hname : ¬ nameOffsetAt data order place < sizeAt data order place := by
          intro hname
          exact h (.of_not_segment hwidth hhead hleast hroom fun _ => ⟨hroomy, hname⟩)
        rw [if_neg hfixed, Library.decode_natCast order data place (by omega), if_neg hname]
        exact ⟨_, rfl, rfl⟩
    · exact absurd (.of_not_segment hwidth hhead hleast hroom
        fun hmem => absurd hmem hlibrary) h

/-- The run over all commands: each starts where the one before it ends. -/
theorem Command.readAll_of_fits (hstop : stop ≤ data.size) {count : Nat} {start : Nat}
    (h : ∀ i < count, CommandFits data order stop ((nextPlace data order)^[i] start))
    (index : Nat) (done : List Command) :
    Command.readAll data order stop count index start done
      = .ok (done.reverse ++ (List.range count).map fun i =>
          commandOf data order ((nextPlace data order)^[i] start)) := by
  -- on the number of commands: the first one is read, and the others are a run from its end
  induction count generalizing start index done with
  | zero => simp [Command.readAll]
  | succ count ih =>
    have hfirst : CommandFits data order stop start := h 0 (Nat.succ_pos _)
    -- the other commands are a run of their own, which starts where the first one ends
    have hrest : ∀ i < count,
        CommandFits data order stop ((nextPlace data order)^[i] (nextPlace data order start)) :=
      fun i hi => h (i + 1) (Nat.succ_lt_succ hi)
    rw [Command.readAll, Command.read_of_fits hstop hfirst]
    simp only [← natCast_nextPlace]
    rw [ih hrest, List.range_succ_eq_map, List.map_cons, List.map_map, List.reverse_cons,
      List.append_assoc]
    rfl

/-- The run stops at the first command that does not fit. -/
theorem Command.exists_error_of_readAll (hstop : stop ≤ data.size) {count : Nat} {start : Nat}
    (h : ∃ i < count, ¬ CommandFits data order stop ((nextPlace data order)^[i] start))
    (index : Nat) (done : List Command) :
    ∃ e, Command.readAll data order stop count index start done = .error e
      ∧ e.misread? = none := by
  -- on the number of commands, with the place that the run has come to
  induction count generalizing start index done with
  | zero =>
    obtain ⟨i, hi, -⟩ := h
    omega
  | succ count ih =>
    rw [Command.readAll]
    by_cases hfirst : CommandFits data order stop start
    · obtain ⟨i, hi, hbad⟩ := h
      cases i with
      | zero => exact absurd hfirst hbad
      | succ i =>
        -- the first command fits, so that the bad one comes in the run behind it
        rw [Command.read_of_fits hstop hfirst]
        simp only [← natCast_nextPlace]
        exact ih ⟨i, Nat.lt_of_succ_lt_succ hi, hbad⟩ _ _
    · obtain ⟨e, he, hmisread⟩ := Command.exists_error_of_read hstop hfirst index
      rw [he]
      exact ⟨e, rfl, hmisread⟩

/-!
## Within one command

A command that fits is read from its own bytes alone: what stands at a place within it is the same
when these bytes are cut out of the file. Its records lie within it, too, so that the footprints of
all commands add up to no more than the room they have together.
-/

theorem recordAt_commandBytes {α : Type} (c : Codec α) {skipped : Nat}
    (h : skipped + c.size ≤ sizeAt data order place) :
    c.recordAt (commandBytes data order place) skipped = c.recordAt data (place + skipped) :=
  c.recordAt_extract data (by unfold nextPlace; omega)

/-- A number within a command is the same in the bytes of the command alone. -/
theorem number_commandBytes {skipped width : Nat}
    (h : skipped + width ≤ sizeAt data order place) :
    (commandBytes data order place).number order skipped width
      = data.number order (place + skipped) width :=
  data.number_extract order (by unfold nextPlace; omega)

/-- A segment command announces the same number of sections by itself. -/
theorem sectionCountAt_commandBytes {width : AddressWidth}
    (h : width.segmentSize ≤ sizeAt data order place) :
    sectionCountAt (commandBytes data order place) order width 0
      = sectionCountAt data order width place := by
  have hleast := width.eight_le_segmentSize
  unfold sectionCountAt
  rw [Nat.zero_add]
  exact number_commandBytes (by omega)

/-- A segment command holds the same segment by itself. -/
theorem segmentAt_commandBytes {width : AddressWidth}
    (h : width.segmentSize ≤ sizeAt data order place) :
    segmentAt (commandBytes data order place) order width 0
      = segmentAt data order width place := by
  have hsegment := Segment.head_add_size width order
  unfold segmentAt
  rw [Nat.zero_add, recordAt_commandBytes _ (by omega)]

/-- A section record within a command is the same in the bytes of the command alone. -/
theorem sectionAt_commandBytes {width : AddressWidth} {skipped : Nat}
    (h : skipped + width.sectionSize ≤ sizeAt data order place) :
    sectionAt (commandBytes data order place) order width skipped
      = sectionAt data order width (place + skipped) := by
  have hsection := Section.size_eq width order
  unfold sectionAt
  rw [recordAt_commandBytes _ (by omega)]

/-- A library command names the same library by itself. -/
theorem libraryAt_commandBytes (hleast : librarySize ≤ sizeAt data order place) :
    libraryAt (commandBytes data order place) order 0 = libraryAt data order place := by
  have hfixed : 24 ≤ sizeAt data order place := hleast
  have hrecord : (LibraryCommand.codec order).recordAt (commandBytes data order place) 0
      = (LibraryCommand.codec order).recordAt data place := recordAt_commandBytes _ hfixed
  have hown : sizeAt (commandBytes data order place) order 0 = sizeAt data order place :=
    number_commandBytes (by omega)
  have hname : nameOffsetAt (commandBytes data order place) order 0
      = nameOffsetAt data order place := number_commandBytes (by omega)
  have hnext : nextPlace (commandBytes data order place) order 0 = 0 + sizeAt data order place := by
    rw [nextPlace, hown]
  -- the name ends with the command in either place
  have hpath : (commandBytes data order place).extract (0 + nameOffsetAt data order place)
        (0 + sizeAt data order place)
      = data.extract (place + nameOffsetAt data order place) (nextPlace data order place) := by
    unfold commandBytes nextPlace
    rw [data.extract_extract_of_le (by omega), Nat.zero_add, Nat.zero_add]
  unfold libraryAt
  rw [hrecord, hname, hnext, hpath]

/-- What a command says depends on its own bytes alone. -/
theorem commandOf_commandBytes (h : CommandFits data order stop place) :
    commandOf (commandBytes data order place) order 0 = commandOf data order place := by
  have hsize := h.size
  -- the first word is the same, so that both are read as the same kind of command
  have hcommand : commandAt (commandBytes data order place) order 0
      = commandAt data order place := number_commandBytes (by omega)
  unfold commandOf
  rw [hcommand]
  cases hwidth : LoadCommand.segmentWidth? (commandAt data order place) with
  -- a segment with its sections, each within the command
  | some width =>
    have hfits := h.sections width hwidth
    have hsegment : width.segmentSize ≤ sizeAt data order place := by omega
    simp only [sectionCountAt_commandBytes hsegment, segmentAt_commandBytes hsegment]
    congr 1
    apply List.map_congr_left
    intro i hi
    have hend := AddressWidth.section_end_le (List.mem_range.mp hi) hfits
    rw [Nat.zero_add, sectionAt_commandBytes hend, Nat.add_assoc]
  | none =>
    by_cases hlibrary : (commandAt data order place : Int) ∈ LoadCommand.libraryCommands
    · simp only [if_pos hlibrary, libraryAt_commandBytes (h.name hlibrary).1]
    · simp only [if_neg hlibrary]

/-- The records that a command holds do not take more room than the command. -/
theorem footprint_le (h : CommandFits data order stop place) :
    footprint data order place ≤ sizeAt data order place := by
  unfold footprint
  split
  next width hwidth =>
    have hfits := h.sections width hwidth
    have hlength : (commandOf data order place).sections.length
        = sectionCountAt data order width place := by
      -- there are as many sections as the command announces
      simp only [commandOf, hwidth, Command.sections, List.length_map, List.length_range]
    rw [hlength]
    exact hfits
  next hwidth =>
    by_cases hlibrary : (commandAt data order place : Int) ∈ LoadCommand.libraryCommands
    · -- the name lies behind the fixed part, which alone is counted
      have hleast := (h.name hlibrary).1
      split <;> omega
    -- nothing is counted where no library is named
    · have hnone : (commandOf data order place).library? = none := by
        simp only [commandOf, hwidth, if_neg hlibrary, Command.library?]
      simp [hnone]

/-- The records that a run of commands holds lie between its ends. -/
theorem add_totalFootprint_le {count start : Nat}
    (h : ∀ i < count, CommandFits data order stop ((nextPlace data order)^[i] start)) :
    start + totalFootprint data order start count ≤ (nextPlace data order)^[count] start := by
  -- on the number of commands: the last of them lies behind all others
  induction count with
  | zero => exact Nat.le_refl start
  | succ count ih =>
    have hlast := footprint_le (h count (Nat.lt_succ_self _))
    have hbefore := ih fun i hi => h i (Nat.lt_succ_of_lt hi)
    -- the last command starts behind the records of the others, and holds its own
    rw [totalFootprint, Function.iterate_succ_apply']
    unfold nextPlace at hlast hbefore ⊢
    omega

/-- A run of commands that fit ends within their room. -/
theorem iterate_nextPlace_le {count start : Nat} (hstart : start ≤ stop)
    (h : ∀ i < count, CommandFits data order stop ((nextPlace data order)^[i] start)) :
    (nextPlace data order)^[count] start ≤ stop := by
  cases count with
  | zero => exact hstart
  | succ count =>
    rw [Function.iterate_succ_apply']
    exact (h count (Nat.lt_succ_self _)).room

end Command

end Provenance.MachO
