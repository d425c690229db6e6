import Provenance.Proofs.Records

/-!
# Records are written as they were read

`Provenance.Proofs.Records` goes from a record to its bytes and back. This is the other way round:
from the bytes at a place of a file to the record that is read there, and back to the bytes. Most
forms of records have a field for each of their bytes, and of these every byte comes back. A DOS
header and an optional header only keep the fields that are looked at, and the rest comes back as
zeros; a Mach-O header with 64-bit addresses comes back with its reserved word.

* `Layout.Carries`, `Layout.getElem?_cleared` — which bytes of a record come back.
* `Codec.write?_recordAt` — the record that stands at a place is written.
* `RecordForm.size`, `RecordForm.Keeps` — the sizes of the forms, and where their fields are.

Main result:

* `record_written_as_read` — what is read anywhere is written again, and reads the same.
-/

namespace Provenance

/-!
## Bytes that come back

A field of numbers or bytes comes back as it was read, and a gap comes back as zeros.
-/

namespace Field

/-- A field carries a value. -/
def HasValue : Field → Prop
  | word _ | bytes _ => True
  | gap _ => False

/-- Whether a field carries a value is told by its kind. -/
instance : (f : Field) → Decidable f.HasValue
  | word _ | bytes _ => isTrue trivial
  | gap _ => isFalse id

theorem length_cleared (f : Field) {bs : List UInt8} (h : f.size ≤ bs.length) :
    (f.cleared bs).length = f.size := by
  cases f with
  | word w => exact List.length_take_of_le h
  | bytes n => exact List.length_take_of_le h
  | gap n => exact List.length_replicate

/-- Clearing leaves the bytes of a value, and makes those of a gap zero. -/
theorem getElem?_cleared (f : Field) (bs : List UInt8) {i : Nat} (hi : i < f.size) :
    (f.cleared bs)[i]? = if f.HasValue then bs[i]? else some 0 := by
  cases f with
  | word w => exact List.getElem?_take_of_lt hi
  | bytes n => exact List.getElem?_take_of_lt hi
  | gap n => exact List.getElem?_replicate_of_lt hi

end Field

namespace Layout

/-- The byte at a place of a record belongs to a field with a value. -/
def Carries : Layout → Nat → Prop
  | [], _ => False
  | f :: rest, i => if i < f.size then f.HasValue else Carries rest (i - f.size)

/-- Whether a place of a record carries a value can be decided field by field. -/
instance decidableCarries : (l : Layout) → (i : Nat) → Decidable (l.Carries i)
  | [], _ => inferInstanceAs (Decidable False)
  | f :: rest, i =>
    have := decidableCarries rest (i - f.size)
    inferInstanceAs (Decidable (if i < f.size then f.HasValue else Carries rest (i - f.size)))

/-- Clearing a layout leaves the bytes of its values, and makes all others zero. -/
theorem getElem?_cleared (l : Layout) {bs : List UInt8} (h : bs.length = l.size) {i : Nat}
    (hi : i < l.size) : (l.cleared bs)[i]? = if l.Carries i then bs[i]? else some 0 := by
  -- the fields are cleared one after the other, each on the bytes that the earlier ones leave
  induction l generalizing bs i with
  | nil => exact absurd hi (Nat.not_lt_zero i)
  | cons f rest ih =>
    rw [size] at h hi
    have hlength : (f.cleared bs).length = f.size := f.length_cleared (by omega)
    rw [cleared, List.getElem?_append, hlength]
    simp only [Carries]
    by_cases hfirst : i < f.size
    · simp only [if_pos hfirst]
      exact f.getElem?_cleared bs hfirst
    · -- a place that is not in the first field is one of the fields behind it
      simp only [if_neg hfirst]
      rw [ih (by rw [List.length_drop]; omega) (by omega), List.getElem?_drop,
        Nat.add_sub_cancel' (by omega)]

/-- The byte strings of a row that was decoded have the size of their fields. -/
theorem exact_decode (order : ByteOrder) (l : Layout) {bs : List UInt8} (h : bs.length = l.size) :
    l.Exact (l.decode order bs) := by
  induction l generalizing bs with
  | nil => trivial
  | cons f rest ih =>
    rw [size] at h
    -- only a field of bytes asks for a length, and that many bytes were there to be taken
    cases f with
    | word w =>
      rw [Field.size] at h
      exact ih (by rw [List.length_drop]; omega)
    | bytes n =>
      rw [Field.size] at h
      have hfield : (bs.take n).length = n := List.length_take_of_le (by omega)
      exact ⟨hfield, ih (by rw [List.length_drop]; omega)⟩
    | gap n =>
      rw [Field.size] at h
      exact ih (by rw [List.length_drop]; omega)

end Layout

namespace Codec

variable {α ε : Type} (c : Codec α) (data : Bytes) (start : Nat)

/-- A record within the file has all the bytes of its layout. -/
theorem length_extract (h : start + c.size ≤ data.size) :
    (data.extract start (start + c.size)).toList.length = c.layout.size := by
  rw [Array.length_toList, Array.size_extract]
  have : c.size = c.layout.size := rfl
  omega

/-- The record that stands at a place is written: its fields as they are, and zeros elsewhere. -/
theorem write?_recordAt (h : start + c.size ≤ data.size) :
    c.write? (c.recordAt data start)
      = some (c.layout.cleared (data.extract start (start + c.size)).toList) := by
  rw [write?, recordAt, c.toRow_ofRow]
  exact c.layout.encode?_decode c.order (c.length_extract data start h)

/-- The byte strings of a record that stands in a file have the size of their fields. -/
theorem exact_recordAt (h : start + c.size ≤ data.size) : c.Exact (c.recordAt data start) := by
  rw [Exact, recordAt, c.toRow_ofRow]
  exact c.layout.exact_decode c.order (c.length_extract data start h)

variable {c data}

/-- A record that was read stands in the file as a whole. -/
theorem recordAt_of_readOr {short : ε} {outside : Misread → ε} {a : α}
    (h : c.readOr data start short outside = .ok a) :
    start + c.size ≤ data.size ∧ a = c.recordAt data start := by
  rw [readOr_eq] at h
  split at h
  · next hsize =>
    cases h
    exact ⟨hsize, rfl⟩
  · cases h

end Codec

/-! ## The forms and their bytes -/

namespace RecordForm

/-- The number of bytes of a record. -/
def size : RecordForm → Nat
  | dosHeader => 64
  | coffHeader => 20
  | dataDirectory => 8
  | optionalHeader .pe32 => 96
  | optionalHeader .pe32Plus => 112
  | peSection => 40
  | importDescriptor => 20
  | elfHeader ident => match ident.fileClass with | .class32 => 52 | .class64 => 64
  | elfSection ident => match ident.fileClass with | .class32 => 40 | .class64 => 64
  | elfSymbol ident => match ident.fileClass with | .class32 => 16 | .class64 => 24
  | dynamicEntry ident => match ident.fileClass with | .class32 => 8 | .class64 => 16
  | machOHeader _ => 28
  | arch => 20

/-- A form has bytes that no field of its records is read from. -/
def HasGaps : RecordForm → Prop
  | dosHeader | optionalHeader _ => True
  | _ => False

/-- The byte at a place of a record belongs to one of its fields. -/
def Keeps : RecordForm → Nat → Prop
  -- the mark, and the offset of the new header
  | dosHeader, i => i < 2 ∨ 60 ≤ i ∧ i < 64
  -- the mark, the entry point, the image base and the number of directories
  | optionalHeader .pe32, i => i < 2 ∨ 16 ≤ i ∧ i < 20 ∨ 28 ≤ i ∧ i < 32 ∨ 92 ≤ i ∧ i < 96
  | optionalHeader .pe32Plus, i => i < 2 ∨ 16 ≤ i ∧ i < 20 ∨ 24 ≤ i ∧ i < 32 ∨ 108 ≤ i ∧ i < 112
  | _, _ => True

/-- A reserved word belongs to a record, which is written behind it. -/
def HasReserved : (form : RecordForm) → form.Record → Prop
  | machOHeader _, (h : MachO.Header) => h.magic = 0xFEEDFACF
  | _, _ => False

/-- The sizes are those of the layouts. -/
theorem codec_size (form : RecordForm) : form.codec.size = form.size := by
  cases form with
  | optionalHeader kind => cases kind <;> rfl
  | elfHeader ident | elfSection ident | elfSymbol ident | dynamicEntry ident =>
    obtain ⟨fileClass, order, osAbi⟩ := ident
    cases fileClass <;> rfl
  | dosHeader | coffHeader | dataDirectory | peSection | importDescriptor | machOHeader
  | arch => rfl

/-- A form without gaps has a field for each byte. -/
theorem dense_codec {form : RecordForm} (h : ¬ form.HasGaps) : form.codec.layout.Dense := by
  cases form with
  | dosHeader | optionalHeader => exact absurd trivial h
  | elfSymbol ident =>
    obtain ⟨fileClass, order, osAbi⟩ := ident
    cases fileClass <;> trivial
  | coffHeader | dataDirectory | peSection | importDescriptor | elfHeader | elfSection
  | dynamicEntry | machOHeader | arch => trivial

/-- The places that are kept are those that carry a value. -/
theorem carries_iff_keeps {form : RecordForm} (h : form.HasGaps) :
    ∀ i < form.size, form.codec.layout.Carries i ↔ form.Keeps i := by
  cases form with
  | dosHeader =>
    show ∀ i < 64, _ ↔ (i < 2 ∨ 60 ≤ i ∧ i < 64)
    decide +kernel
  | optionalHeader kind =>
    cases kind with
    | pe32 =>
      show ∀ i < 96, _ ↔ (i < 2 ∨ 16 ≤ i ∧ i < 20 ∨ 28 ≤ i ∧ i < 32 ∨ 92 ≤ i ∧ i < 96)
      decide +kernel
    | pe32Plus =>
      show ∀ i < 112, _ ↔ (i < 2 ∨ 16 ≤ i ∧ i < 20 ∨ 24 ≤ i ∧ i < 32 ∨ 108 ≤ i ∧ i < 112)
      decide +kernel
  | _ => exact h.elim

/-- What is read at a place is the record that stands there, and it has its own mark. -/
theorem recordAt_of_reads {form : RecordForm} {data : Bytes} {start : Nat} {r : form.Record}
    (h : form.Reads data start r) :
    start + form.codec.size ≤ data.size ∧ r = form.codec.recordAt data start ∧ form.Proper r := by
  -- names and identifications are cut out in the size of their fields
  have hproper : start + form.codec.size ≤ data.size ∧ r = form.codec.recordAt data start →
      form.codec.Exact r := by
    rintro ⟨hsize, rfl⟩
    exact form.codec.exact_recordAt data start hsize
  cases form with
  | dosHeader =>
    rw [Reads, Pe.DosHeader.decode_natCast] at h
    obtain ⟨header, hread, hmark⟩ := bind_eq_ok_iff.mp h
    split at hmark
    · next hmagic =>
      cases hmark
      exact ⟨(Codec.recordAt_of_readOr _ hread).1, (Codec.recordAt_of_readOr _ hread).2, hmagic⟩
    · cases hmark
  | optionalHeader kind =>
    rw [Reads, Pe.OptionalHeader.decode_natCast] at h
    obtain ⟨header, hread, hmark⟩ := bind_eq_ok_iff.mp h
    split at hmark
    · next hmagic =>
      cases hmark
      refine ⟨(Codec.recordAt_of_readOr _ hread).1, (Codec.recordAt_of_readOr _ hread).2, ?_⟩
      cases kind <;> exact hmagic
    · cases hmark
  | peSection =>
    have hrecord := Codec.recordAt_of_readOr _ h
    exact ⟨hrecord.1, hrecord.2, (hproper hrecord).1⟩
  | elfHeader ident =>
    obtain ⟨rfl, hread⟩ := h
    have hrecord := Codec.recordAt_of_readOr 0 hread
    exact ⟨hrecord.1, hrecord.2, (hproper hrecord).1⟩
  | machOHeader order =>
    obtain ⟨rfl, hread⟩ := h
    have hrecord := Codec.recordAt_of_readOr 0 hread
    exact ⟨hrecord.1, hrecord.2, trivial⟩
  | coffHeader | dataDirectory | importDescriptor | elfSection | elfSymbol | dynamicEntry | arch =>
    have hrecord := Codec.recordAt_of_readOr _ h
    exact ⟨hrecord.1, hrecord.2, trivial⟩

/-- Only a reserved word is written besides the bytes of the fields. -/
theorem write?_of_codec {form : RecordForm} {r : form.Record} {bs : List UInt8}
    (h : form.codec.write? r = some bs) :
    (¬ form.HasReserved r → form.write? r = some bs)
      ∧ (form.HasReserved r → form.write? r = some (bs ++ [0, 0, 0, 0])) := by
  -- only one form is written with more than its fields
  cases form with
  | machOHeader order =>
    have hwrite : write? (machOHeader order) r
        = some (if MachO.Header.is64Bit r then bs ++ List.replicate 4 0 else bs) := by
      show ((MachO.Header.codec order).write? r).map _ = _
      rw [show (MachO.Header.codec order).write? r = some bs from h]
      rfl
    have hreserved : (machOHeader order).HasReserved r ↔ MachO.Header.is64Bit r = true :=
      beq_iff_eq.symm
    rw [hwrite, hreserved]
    exact ⟨fun hnot => by rw [if_neg hnot], fun hyes => by rw [if_pos hyes]; rfl⟩
  | _ => exact ⟨fun _ => h, fun hreserved => hreserved.elim⟩

/-- No form has both gaps and a reserved word. -/
theorem not_hasGaps_of_hasReserved {form : RecordForm} {r : form.Record}
    (h : form.HasReserved r) : ¬ form.HasGaps := by
  cases form with
  | machOHeader order => exact id
  | _ => exact h.elim

/-- Whatever is written of a record reads the same. -/
theorem reads_of_write? {form : RecordForm} {r : form.Record} {bs : List UInt8}
    (hproper : form.Proper r) (h : form.write? r = some bs) : form.Reads bs.toArray 0 r := by
  obtain ⟨front, more, hfront, rfl⟩ := exists_of_write? h
  exact reads_of_heldAt hproper (fun _ => rfl)
    ⟨front, hfront, Bytes.holdsAt_append [] front more⟩

end RecordForm

/-- What is read at a place of a file lies in the file as a whole, and is written again. A record
that has a field for each byte gives just the bytes it was read from, and a Mach-O header with
64-bit addresses gives four zeros behind them. Of a record with gaps, the bytes of its fields are
found in their own places, and zeros in all others. Whatever is written reads the same. -/
theorem record_written_as_read (form : RecordForm) (data : Bytes) (start : Nat) (r : form.Record)
    (h : form.Reads data start r) :
    start + form.size ≤ data.size
      ∧ (¬ form.HasGaps → ¬ form.HasReserved r →
          form.write? r = some (data.extract start (start + form.size)).toList)
      ∧ (form.HasReserved r →
          form.write? r = some ((data.extract start (start + form.size)).toList ++ [0, 0, 0, 0]))
      ∧ (form.HasGaps → ∃ bs, form.write? r = some bs ∧ bs.length = form.size
          ∧ ∀ i < form.size, (form.Keeps i → bs[i]? = data[start + i]?)
            ∧ (¬ form.Keeps i → bs[i]? = some 0))
      ∧ ∃ bs, form.write? r = some bs ∧ form.Reads bs.toArray 0 r := by
  obtain ⟨hsize, rfl, hproper⟩ := RecordForm.recordAt_of_reads h
  have hcodec := form.codec.write?_recordAt data start hsize
  have hplain := RecordForm.write?_of_codec hcodec
  have hlength := form.codec.length_extract data start hsize
  -- without gaps, clearing the bytes changes nothing
  have hdense : ¬ form.HasGaps → form.codec.layout.cleared _ = _ := fun hgaps =>
    form.codec.layout.cleared_of_dense (RecordForm.dense_codec hgaps) hlength
  rw [← form.codec_size]
  refine ⟨hsize, fun hgaps hreserved => ?_, fun hreserved => ?_, fun hgaps => ?_, ?_⟩
  · rw [hplain.1 hreserved, hdense hgaps]
  · rw [hplain.2 hreserved, hdense (RecordForm.not_hasGaps_of_hasReserved hreserved)]
  · -- none of the forms with gaps has a reserved word
    have hreserved : ¬ form.HasReserved (form.codec.recordAt data start) :=
      fun h => RecordForm.not_hasGaps_of_hasReserved h hgaps
    refine ⟨_, hplain.1 hreserved, Codec.length_of_write? hcodec, fun i hi => ?_⟩
    have hbyte := form.codec.layout.getElem?_cleared hlength hi
    have hplace : (data.extract start (start + form.codec.size)).toList[i]? = data[start + i]? := by
      rw [Array.getElem?_toList, Array.getElem?_extract, if_pos (by omega)]
    have hkeeps := RecordForm.carries_iff_keeps hgaps i (form.codec_size ▸ hi)
    rw [hplace] at hbyte
    exact ⟨fun hi => by rw [hbyte, if_pos (hkeeps.mpr hi)],
      fun hi => by rw [hbyte, if_neg (mt hkeeps.mp hi)]⟩
  · by_cases hreserved : form.HasReserved (form.codec.recordAt data start)
    · exact ⟨_, hplain.2 hreserved, RecordForm.reads_of_write? hproper (hplain.2 hreserved)⟩
    · exact ⟨_, hplain.1 hreserved, RecordForm.reads_of_write? hproper (hplain.1 hreserved)⟩

/-- A file with a DOS header behind its first byte, and other bytes where the header has a gap. -/
def shiftedHeader : Bytes :=
  ([7, 0x4D, 0x5A] ++ List.replicate 58 (9 : UInt8) ++ [0x80, 0, 0, 0, 5]).toArray

/-- Read behind the first byte, it is written with zeros in the gap. -/
theorem shiftedHeader_written_as_read :
    Pe.DosHeader.decode shiftedHeader 1 = .ok ⟨0x5A4D, 0x80⟩
      ∧ ∃ bs, Pe.DosHeader.codec.write? ⟨0x5A4D, 0x80⟩ = some bs ∧ bs.length = 64
        ∧ bs[60]? = some 0x80 ∧ bs[30]? = some 0
        ∧ Pe.DosHeader.decode bs.toArray 0 = .ok ⟨0x5A4D, 0x80⟩ := by
  have hread : RecordForm.Reads .dosHeader shiftedHeader 1 (⟨0x5A4D, 0x80⟩ : Pe.DosHeader) := rfl
  obtain ⟨-, -, -, hgaps, bs, hwrite, hreads⟩ := record_written_as_read _ _ _ _ hread
  obtain ⟨same, hsame, hlength, hbytes⟩ := hgaps trivial
  cases hsame.symm.trans hwrite
  refine ⟨hread, bs, hwrite, hlength, ?_, ?_, hreads⟩
  · exact (hbytes 60 (by decide)).1 (Or.inr ⟨by decide, by decide⟩)
  · exact (hbytes 30 (by decide)).2 (by unfold RecordForm.Keeps; decide)

end Provenance
