import Provenance.Proofs.MachO.Acceptance

/-!
# The bytes that an image is read from

An image is read from its header and its load commands alone. Reads are checked against the end of
the file and not against the end of the commands, so that this has to be shown of each of them: two
files that begin with the same header and commands are both images or both none, and the same ones.

* `SameFront` — two files begin with the same bytes, so many of them; `SameFront.extract_eq` and
  `SameFront.number_eq` for the parts of the files and the numbers in them.
* `SameFront.commandFits` — a load command that fits within these bytes fits in the other file too;
  `SameFront.commandPlace_eq` says by induction that the commands stand at the same places.
* `SameFront.hasCommands` — the other file is an image as well, and `HasCommands.stopPlace_le` that
  no file is one that ends before its commands do.

Main result:

* `image_depends_on_header_and_commands` — whatever stands behind the commands makes no difference,
  and a file that is cut off before is refused.
-/

namespace Provenance.MachO

/-- Two files begin with the same bytes, `stop` of them. -/
structure SameFront (data other : Bytes) (stop : Nat) : Prop where
  size : stop ≤ data.size
  front : other.extract 0 stop = data.extract 0 stop

namespace SameFront

variable {data other : Bytes} {order : ByteOrder} {stop : Nat}

theorem le_size (h : SameFront data other stop) : stop ≤ other.size := by
  have hlength := congrArg Array.size h.front
  have hsize := h.size
  rw [Array.size_extract, Array.size_extract] at hlength
  omega

/-- The front of a file begins like the file. -/
theorem of_extract (h : stop ≤ data.size) : SameFront data (data.extract 0 stop) stop where
  size := h
  front := by rw [data.extract_extract_of_le (by omega), Nat.zero_add, Nat.zero_add]

theorem extract_eq (h : SameFront data other stop) {first last : Nat} (hlast : last ≤ stop) :
    other.extract first last = data.extract first last := by
  have hpart := congrArg (fun front : Bytes => front.extract first last) h.front
  rwa [other.extract_extract_of_le (by omega), data.extract_extract_of_le (by omega), Nat.zero_add,
    Nat.zero_add] at hpart

theorem number_eq (h : SameFront data other stop) {place width : Nat}
    (hlast : place + width ≤ stop) :
    other.number order place width = data.number order place width := by
  unfold Bytes.number
  rw [h.extract_eq hlast]

/-!
## One command

A command that ends in front of the stop is the same in two files that agree up to there.
-/

section Command

variable {place : Nat}

theorem commandAt_eq (h : SameFront data other stop) (hhead : place + 8 ≤ stop) :
    commandAt other order place = commandAt data order place :=
  h.number_eq (by omega)

theorem sizeAt_eq (h : SameFront data other stop) (hhead : place + 8 ≤ stop) :
    sizeAt other order place = sizeAt data order place :=
  h.number_eq (by omega)

theorem nextPlace_eq (h : SameFront data other stop) (hhead : place + 8 ≤ stop) :
    nextPlace other order place = nextPlace data order place := by
  rw [nextPlace, nextPlace, h.sizeAt_eq hhead]

theorem commandBytes_eq (h : SameFront data other stop)
    (hfits : CommandFits data order stop place) :
    commandBytes other order place = commandBytes data order place := by
  rw [commandBytes, commandBytes, h.nextPlace_eq hfits.head, h.extract_eq hfits.room]

/-- A command that fits is one that fits in the other file. -/
theorem commandFits (h : SameFront data other stop) (hfits : CommandFits data order stop place) :
    CommandFits other order stop place := by
  have hnext : nextPlace other order place = nextPlace data order place :=
    h.nextPlace_eq hfits.head
  have hroom : place + sizeAt data order place ≤ stop := hfits.room
  constructor
  case head => exact hfits.head
  case size =>
    rw [h.sizeAt_eq hfits.head]
    exact hfits.size
  case room =>
    rw [hnext]
    exact hfits.room
  case sections =>
    intro width hwidth
    rw [h.commandAt_eq hfits.head] at hwidth
    -- only a segment has sections, and then its fixed part is long enough to hold their number
    have hsections := hfits.sections width hwidth
    have hleast := width.eight_le_segmentSize
    -- the number of sections stands within the command
    have hcount : sectionCountAt other order width place = sectionCountAt data order width place :=
      h.number_eq (by omega)
    rw [hcount, h.sizeAt_eq hfits.head]
    exact hsections
  case name =>
    intro hlibrary
    -- only a library has a name, and its offset stands in the first 24 bytes
    rw [h.commandAt_eq hfits.head] at hlibrary
    obtain ⟨hleast, hname⟩ := hfits.name hlibrary
    have hfixed : 24 ≤ sizeAt data order place := hleast
    have hoffset : nameOffsetAt other order place = nameOffsetAt data order place :=
      h.number_eq (by omega)
    rw [hoffset, h.sizeAt_eq hfits.head]
    exact ⟨hleast, hname⟩

/-- A command that fits says the same in the other file, for it is told from its own bytes. -/
theorem commandOf_eq (h : SameFront data other stop) (hfits : CommandFits data order stop place) :
    commandOf other order place = commandOf data order place := by
  rw [← commandOf_commandBytes (h.commandFits hfits), ← commandOf_commandBytes hfits,
    h.commandBytes_eq hfits]

end Command

/-!
## All commands

The places of the commands depend on the sizes of those in front of them. By induction each is the
same in both files, since the sizes lie in what the files share.
-/

/-- The commands start at the same place: whether the header is the longer one is told by the magic.
-/
theorem startPlace_eq (h : SameFront data other stop) (hstop : 28 ≤ stop) :
    startPlace other order = startPlace data order := by
  rw [startPlace, startPlace, h.number_eq (by omega)]

theorem commandCount_eq (h : SameFront data other stop) (hstop : 28 ≤ stop) :
    commandCount other order = commandCount data order :=
  h.number_eq (by omega)

theorem stopPlace_eq (h : SameFront data other stop) (hstop : 28 ≤ stop) :
    stopPlace other order = stopPlace data order := by
  have hsize : commandsSize other order = commandsSize data order := h.number_eq (by omega)
  rw [stopPlace, stopPlace, h.startPlace_eq hstop, hsize]

theorem headerOf_eq (h : SameFront data other stop) (hstop : 28 ≤ stop) :
    headerOf other order = headerOf data order := by
  have hsize : (Header.codec order).size = 28 := rfl
  rw [headerOf, headerOf, Codec.recordAt, Codec.recordAt, h.extract_eq (by omega)]

/-- The commands stand at the same places. -/
theorem commandPlace_eq (h : SameFront data other stop) (hstop : 28 ≤ stop) {count : Nat}
    (hfits : ∀ i < count, CommandFits data order stop (commandPlace data order i)) :
    ∀ i ≤ count, commandPlace other order i = commandPlace data order i := by
  intro i
  induction i with
  | zero =>
    intro _
    exact h.startPlace_eq hstop
  | succ i ih =>
    intro hi
    have hplace := ih (Nat.le_of_succ_le hi)
    have hhead := (hfits i hi).head
    -- each command starts where the one before it ends
    unfold commandPlace at hplace hhead ⊢
    rw [Function.iterate_succ_apply', Function.iterate_succ_apply', hplace, h.nextPlace_eq hhead]

end SameFront

/-! ## The image -/

section Image

variable {data other : Bytes} {order : ByteOrder}

theorem stopPlace_ge : 28 ≤ stopPlace data order := by
  unfold stopPlace startPlace
  split <;> omega

/-- Whatever stands behind the commands, the file is an image. -/
theorem SameFront.hasCommands (hsame : SameFront data other (stopPlace data order))
    (h : HasCommands data order) : HasCommands other order := by
  have hstop : 28 ≤ stopPlace data order := stopPlace_ge
  -- the count stands in the header, and each command starts where those in front of it end
  have hcount : commandCount other order = commandCount data order :=
    hsame.commandCount_eq hstop
  constructor
  case magic =>
    rw [hsame.number_eq (by omega)]
    exact h.magic
  case header => exact Nat.le_trans hstop hsame.le_size
  case count =>
    rw [hcount]
    exact h.count
  case room =>
    rw [hsame.stopPlace_eq hstop]
    exact hsame.le_size
  case commands =>
    intro i hi
    rw [hcount] at hi
    rw [hsame.stopPlace_eq hstop, hsame.commandPlace_eq hstop h.commands i (Nat.le_of_lt hi)]
    exact hsame.commandFits (h.commands i hi)

/-- Whatever stands behind the commands, the image is the same. -/
theorem SameFront.image_eq (hsame : SameFront data other (stopPlace data order))
    (h : HasCommands data order) : Image.ofBytes other = Image.ofBytes data := by
  have hstop : 28 ≤ stopPlace data order := stopPlace_ge
  -- the same places, and at each of them a command that says the same
  have hcommands : (List.range (commandCount data order)).map
        (fun i => commandOf other order (commandPlace other order i))
      = (List.range (commandCount data order)).map
        (fun i => commandOf data order (commandPlace data order i)) := by
    apply List.map_congr_left
    intro i hi
    have hi : i < commandCount data order := List.mem_range.mp hi
    rw [hsame.commandPlace_eq hstop h.commands i (Nat.le_of_lt hi),
      hsame.commandOf_eq (h.commands i hi)]
  rw [Image.ofBytes_of_hasCommands h, Image.ofBytes_of_hasCommands (hsame.hasCommands h),
    hsame.headerOf_eq hstop, hsame.commandCount_eq hstop, hcommands]

/-- A file is an image in one byte order only. -/
theorem HasCommands.order_eq {order' : ByteOrder} (h : HasCommands data order)
    (hsize : 4 ≤ data.size)
    (hmagic : data.number order' 0 4 = machOMagic32 ∨ data.number order' 0 4 = machOMagic64) :
    order' = order := by
  -- both orders are the one that the magic word of the file is detected by
  obtain ⟨width, hdetect⟩ := detectByteOrder_of_magic hsize h.magic
  obtain ⟨width', hdetect'⟩ := detectByteOrder_of_magic hsize hmagic
  cases hdetect.symm.trans hdetect'
  rfl

/-- The front of an image that is an image reaches to the end of the commands. -/
theorem HasCommands.stopPlace_le {order' : ByteOrder} {n : Nat} (h : HasCommands data order)
    (hfront : HasCommands (data.extract 0 n) order') : stopPlace data order ≤ n := by
  have hheader := hfront.header
  have hroom := hfront.room
  rw [Array.size_extract] at hheader hroom
  by_cases hall : data.size ≤ n
  · exact Nat.le_trans h.room hall
  -- the header is there, and gives the commands the same room
  have hsame : SameFront data (data.extract 0 n) n := .of_extract (by omega)
  have hmagic := hfront.magic
  rw [hsame.number_eq (by omega)] at hmagic
  cases h.order_eq (by omega) hmagic
  rw [hsame.stopPlace_eq (by omega)] at hroom
  omega

/-- An image that was read ends its commands where its header says. -/
theorem Image.exists_of_ofBytes {img : Image} (h : Image.ofBytes data = .ok img) :
    ∃ order, HasCommands data order
      ∧ img.header.size + img.header.commandsSize = (stopPlace data order : Nat) := by
  -- either the file has the commands of an image in one of the orders, or it was refused
  by_cases hcommands : ∃ order, HasCommands data order
  · obtain ⟨order, hcommands⟩ := hcommands
    cases (Image.ofBytes_of_hasCommands hcommands).symm.trans h
    refine ⟨order, hcommands, ?_⟩
    show (headerOf data order).size + (headerOf data order).commandsSize = _
    rw [headerOf_size, headerOf, header_commandsSize, stopPlace, Int.natCast_add]
  · obtain ⟨e, he, -⟩ := Image.exists_error_of_ofBytes (not_exists.mp hcommands)
    cases he.symm.trans h

end Image

/-- **An image depends on its header and its load commands alone.** They end where the header says,
which is within the file. Any file that begins with the same bytes up to there, and goes on in
whatever way, is read as the same image; and what is left of the file when it is cut off before is
refused. -/
theorem image_depends_on_header_and_commands {data : Bytes} {img : Image}
    (h : Image.ofBytes data = .ok img) :
    ∃ stop : Nat, (stop : Int) = img.header.size + img.header.commandsSize ∧ stop ≤ data.size
      ∧ (∀ other : Bytes, other.extract 0 stop = data.extract 0 stop →
          Image.ofBytes other = .ok img)
      ∧ ∀ n < stop, ∃ e, Image.ofBytes (data.extract 0 n) = .error e ∧ e.misread? = none := by
  obtain ⟨order, hcommands, hstop⟩ := Image.exists_of_ofBytes h
  refine ⟨stopPlace data order, hstop.symm, hcommands.room, ?_, ?_⟩
  · intro other hfront
    -- both files have the image that the shared front describes
    have hsame : SameFront data other (stopPlace data order) := ⟨hcommands.room, hfront⟩
    rw [hsame.image_eq hcommands, h]
  · intro n hn
    apply Image.exists_error_of_ofBytes
    -- a shorter file would hold the commands only if they ended before its own end does
    intro order' hcut
    exact Nat.not_le.mpr hn (hcommands.stopPlace_le hcut)

/-- An image with one library and 64-bit addresses, and three bytes behind its commands. -/
def loneLibrary : Bytes :=
  let word := fun n : UInt8 => [n, 0, 0, 0]
  let header := [0xCF, 0xFA, 0xED, 0xFE] ++ word 7 ++ word 3 ++ word 2 ++ word 1 ++ word 36
    ++ word 0 ++ word 0
  let library := word 0x0C ++ word 36 ++ word 24 ++ word 0 ++ word 0 ++ word 0
    ++ [0x6C, 0x69, 0x62, 0x73, 0x77, 0x69, 0x66, 0x74, 0, 0, 0, 0]
  (header ++ library ++ [1, 2, 3]).toArray

/-- The three bytes may be others or missing, but not a byte of the header or the command. -/
theorem loneLibrary_read :
    ∃ img, Image.ofBytes loneLibrary = .ok img ∧ img.importedLibraries = ["libswift"]
      ∧ Image.ofBytes (loneLibrary.extract 0 68) = .ok img
      ∧ Image.ofBytes (loneLibrary.extract 0 68 ++ #[4, 5]) = .ok img
      ∧ ∀ n < 68, ∃ e, Image.ofBytes (loneLibrary.extract 0 n) = .error e ∧ e.misread? = none := by
  have hrun : (Image.ofBytes loneLibrary).toOption.map
      (fun img => (img.importedLibraries, img.header.size + img.header.commandsSize))
        = some (["libswift"], 68) := by
    decide +kernel
  cases hread : Image.ofBytes loneLibrary with
  | error e =>
    rw [hread] at hrun
    cases hrun
  | ok img =>
    rw [hread] at hrun
    obtain ⟨hlibraries, hend⟩ := Prod.mk.inj (Option.some.inj hrun)
    obtain ⟨stop, hstop, -, hother, hcut⟩ := image_depends_on_header_and_commands hread
    rw [hend] at hstop
    obtain rfl : stop = 68 := Int.ofNat_inj.mp hstop
    exact ⟨img, rfl, hlibraries, hother _ (by decide +kernel), hother _ (by decide +kernel), hcut⟩

end Provenance.MachO
