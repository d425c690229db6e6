import Provenance.Bytes.Layout
import Provenance.Proofs.Outcome

/-!
# Reading at a place

Numbers and records at places of a file. A place counts from the start of the file and is a natural
number here: the readers compute theirs from unsigned words, so none is negative.

* `Bytes.number` — the number that some bytes of a file spell. The words of a record are such
  numbers (`Word.decode_drop_take`), and a part of a file that holds the place spells the same one
  (`Bytes.number_extract`).
* `Bytes.HoldsAt`, `Codec.HeldAt` — some bytes, or the bytes of a record, stand at a place.
* `Codec.recordAt` — the record that the bytes at a place spell; `Codec.readOr_of_heldAt` says that
  a record that a file holds is read back.
* `Codec.writeAll?` — the bytes of records one after the other, each of which then stands at its
  own place (`Codec.heldAt_of_writeAll?`).
* `Layout.fits_decode`, `Codec.fits_of_readOr` — whatever is read fits its words.
* `Codec.error_of_readOr` — the one way in which reading at a place fails.
-/

namespace Provenance

namespace Bytes

/-- The number that `width` bytes from a place on spell. -/
def number (data : Bytes) (order : ByteOrder) (start width : Nat) : Nat :=
  order.decode (data.extract start (start + width)).toList

/-- A file has some bytes at a place. -/
def HoldsAt (data : Bytes) (start : Nat) (bs : List UInt8) : Prop :=
  start + bs.length ≤ data.size ∧ (data.extract start (start + bs.length)).toList = bs

/-- Bytes at a place are found in the list of the data. -/
theorem holdsAt_iff_toList {data : Bytes} {start : Nat} {bs : List UInt8} :
    data.HoldsAt start bs ↔
      start + bs.length ≤ data.toList.length
        ∧ (data.toList.drop start).take bs.length = bs := by
  have hsize : data.toList.length = data.size := Array.length_toList
  rw [HoldsAt, Array.toList_extract, List.extract_eq_take_drop, Nat.add_sub_cancel_left, hsize]

-- a list is looked into faster than a part of an array is cut out
instance (data : Bytes) (start : Nat) (bs : List UInt8) : Decidable (data.HoldsAt start bs) :=
  decidable_of_iff _ holdsAt_iff_toList.symm

/-- A part of a part of the data is a part of the data. -/
theorem extract_extract_of_le (data : Bytes) {start stop first last : Nat}
    (h : start + last ≤ stop) :
    (data.extract start stop).extract first last = data.extract (start + first) (start + last) := by
  rw [Array.extract_extract, Nat.min_eq_left h]

/-- The bytes behind a front of a part of the data, as a part of the data. -/
theorem drop_take_extract (data : Bytes) {start stop skipped width : Nat}
    (h : start + skipped + width ≤ stop) :
    ((data.extract start stop).toList.drop skipped).take width
      = (data.extract (start + skipped) (start + skipped + width)).toList := by
  simp only [Array.toList_extract, List.extract_eq_take_drop, List.drop_take, List.take_take,
    List.drop_drop]
  congr 1
  omega

/-- A part of the data that holds a number as a whole spells the same one. -/
theorem number_extract (data : Bytes) (order : ByteOrder) {start stop first width : Nat}
    (h : start + first + width ≤ stop) :
    number (data.extract start stop) order first width
      = data.number order (start + first) width := by
  unfold number
  rw [data.extract_extract_of_le (by omega), Nat.add_assoc]

/-- The front of the data spells the same numbers as far as it reaches. -/
theorem number_front (data : Bytes) (order : ByteOrder) {stop place width : Nat}
    (h : place + width ≤ stop) :
    number (data.extract 0 stop) order place width = data.number order place width := by
  rw [data.number_extract order (by omega), Nat.zero_add]

/-- A number of so many bytes is below their span. -/
theorem number_lt (data : Bytes) (order : ByteOrder) {start width : Nat}
    (h : start + width ≤ data.size) : data.number order start width < byteSpan width := by
  have hlt := order.decode_lt (data.extract start (start + width)).toList
  have hlen : (data.extract start (start + width)).toList.length = width := by
    rw [Array.length_toList, Array.size_extract]
    omega
  rwa [hlen] at hlt

/-- The bytes at a place spell a number exactly when they are those of the number. -/
theorem number_eq_iff_holdsAt {data : Bytes} {order : ByteOrder} {start width n : Nat}
    (hsize : start + width ≤ data.size) (hn : n < byteSpan width) :
    data.number order start width = n ↔ data.HoldsAt start (order.encode width n) := by
  -- the part that is cut out has as many bytes as are asked for
  have hlength : (data.extract start (start + width)).toList.length = width := by
    rw [Array.length_toList, Array.size_extract]
    omega
  constructor
  · rintro rfl
    have hencode := order.encode_decode (data.extract start (start + width)).toList
    rw [hlength] at hencode
    rw [HoldsAt, ByteOrder.length_encode]
    exact ⟨hsize, hencode.symm⟩
  · rintro ⟨-, hbytes⟩
    rw [ByteOrder.length_encode] at hbytes
    rw [number, hbytes, ByteOrder.decode_encode, Nat.mod_eq_of_lt hn]

/-- The data begin with some bytes exactly when these stand at the first place. -/
theorem startsWith_iff_holdsAt {data : Bytes} {bs : List UInt8} (hsize : bs.length ≤ data.size) :
    data.startsWith bs = true ↔ data.HoldsAt 0 bs := by
  simp only [startsWith, HoldsAt, beq_iff_eq, Nat.zero_add, hsize, true_and]

/-- The front of the data holds the same bytes as far as it reaches. -/
theorem holdsAt_front {data : Bytes} {stop start : Nat} {bs : List UInt8}
    (h : start + bs.length ≤ stop) :
    HoldsAt (data.extract 0 stop) start bs ↔ data.HoldsAt start bs := by
  have hsize : start + bs.length ≤ (data.extract 0 stop).size ↔ start + bs.length ≤ data.size := by
    rw [Array.size_extract]
    omega
  rw [HoldsAt, HoldsAt, hsize, data.extract_extract_of_le (by omega), Nat.zero_add, Nat.zero_add]

/-- Bytes stand where they are put. -/
theorem holdsAt_append (front bs back : List UInt8) :
    HoldsAt (front ++ bs ++ back).toArray front.length bs := by
  refine holdsAt_iff_toList.mpr ⟨?_, ?_⟩
  · rw [List.length_append, List.length_append]
    omega
  · show ((front ++ bs ++ back).drop front.length).take bs.length = bs
    rw [List.append_assoc, List.drop_left, List.take_left]

/-- The back of what stands at a place stands behind the front of it. -/
theorem HoldsAt.drop {data : Bytes} {start : Nat} {front back : List UInt8}
    (h : data.HoldsAt start (front ++ back)) : data.HoldsAt (start + front.length) back := by
  obtain ⟨hsize, hbytes⟩ := h
  rw [List.length_append] at hsize hbytes
  have hback := congrArg (List.drop front.length) hbytes
  rw [data.drop_extract, List.drop_left] at hback
  exact ⟨by omega, hback⟩

/-- The front of what stands at a place stands there too. -/
theorem HoldsAt.take {data : Bytes} {start : Nat} {front back : List UInt8}
    (h : data.HoldsAt start (front ++ back)) : data.HoldsAt start front := by
  obtain ⟨hsize, hbytes⟩ := h
  rw [List.length_append] at hsize hbytes
  have hfront := congrArg (List.take front.length) hbytes
  rw [data.take_extract, List.take_left] at hfront
  exact ⟨by omega, hfront⟩

/-- The bytes at a place are those of the list, one by one. -/
theorem HoldsAt.getElem? {data : Bytes} {start : Nat} {bs : List UInt8} (h : data.HoldsAt start bs)
    {i : Nat} (hi : i < bs.length) : data[start + i]? = bs[i]? := by
  obtain ⟨hsize, hbytes⟩ := h
  have hget := congrArg (·[i]?) hbytes
  simp only [Array.getElem?_toList, Array.getElem?_extract] at hget
  rw [if_pos (by omega)] at hget
  exact hget

end Bytes

namespace Word

/-- The bytes of an unsigned word spell a natural number. -/
theorem decode_of_unsigned {w : Word} (h : w.signed = false) (order : ByteOrder)
    (bs : List UInt8) : w.decode order bs = order.decode bs := by
  simp [decode, ofNat, h]

/-- A word in the bytes of a record is what the number at its place in the file stands for. -/
theorem decode_drop_take_ofNat (w : Word) (order : ByteOrder) (data : Bytes)
    (start size skipped : Nat) (hsize : skipped + w.width ≤ size) :
    w.decode order (((data.extract start (start + size)).toList.drop skipped).take w.width)
      = w.ofNat (data.number order (start + skipped) w.width) := by
  rw [data.drop_take_extract (by omega)]
  rfl

/-- An unsigned word in the bytes of a record is the number at its place in the file. -/
theorem decode_drop_take (w : Word) (order : ByteOrder) (data : Bytes) (start size skipped : Nat)
    (h : w.signed = false) (hsize : skipped + w.width ≤ size) :
    w.decode order (((data.extract start (start + size)).toList.drop skipped).take w.width)
      = data.number order (start + skipped) w.width := by
  rw [decode_of_unsigned h, data.drop_take_extract (by omega)]
  rfl

theorem nonneg_of_fits {w : Word} (h : w.signed = false) {v : Int} (hfits : w.Fits v) :
    0 ≤ v := by
  rw [Fits, h] at hfits
  exact hfits.1

theorem lt_of_fits {w : Word} (h : w.signed = false) {v : Int} (hfits : w.Fits v) :
    v < w.modulus := by
  rw [Fits, h] at hfits
  exact hfits.2

/-- At a place of the file a word is read exactly when it ends within the file. -/
theorem read_natCast (w : Word) (order : ByteOrder) (data : Bytes) (start : Nat) :
    w.read order data start =
      if start + w.width ≤ data.size then
        .ok (w.decode order (data.extract start (start + w.width)).toList)
      else .error (.of w.width start data.size) := by
  rw [read, Bytes.window_natCast]
  split <;> rfl

/-- At an offset that can be named, it is not the offset that a failed read is put down to. -/
theorem ne_unaddressable_of_read {w : Word} {order : ByteOrder} {data : Bytes} {offset : Int}
    {e : Misread} (haddress : Misread.IsAddress offset)
    (h : w.read order data offset = .error e) : e ≠ .unaddressable := by
  have hwindow := map_eq_error_iff.mp h
  -- the window has failed, and what is left of the error is not about the offset
  simp only [Bytes.window] at hwindow
  split at hwindow
  next => cases hwindow
  next =>
    cases hwindow
    rw [Misread.of, if_neg (fun hnot => hnot haddress)]
    split
    · intro h
      cases h
    · split
      · intro h
        cases h
      · intro h
        cases h

/-- What bytes spell fits the word of their number. -/
theorem fits_decode (w : Word) (order : ByteOrder) {bs : List UInt8} (h : bs.length = w.width) :
    w.Fits (w.decode order bs) := by
  have hlt := order.decode_lt bs
  rw [h] at hlt
  exact (fits_ofNat hlt).1

end Word

/-- Whether a row fits its layout can be decided field by field. -/
instance Layout.decidableFits : (l : Layout) → (row : l.Row) → Decidable (l.Fits row)
  | [], _ => isTrue trivial
  | .word w :: rest, row =>
    have := decidableFits rest row.2
    inferInstanceAs (Decidable (w.Fits row.1 ∧ Fits rest row.2))
  | .bytes _ :: rest, row => decidableFits rest row.2
  | .gap _ :: rest, row => decidableFits rest row

/-- Whatever the bytes of a record spell fits its words. -/
theorem Layout.fits_decode (order : ByteOrder) (l : Layout) {bs : List UInt8}
    (h : bs.length = l.size) : l.Fits (l.decode order bs) := by
  -- the induction is on the fields; each takes its bytes from the front
  induction l generalizing bs with
  | nil => trivial
  | cons f rest ih =>
    rw [Layout.size] at h
    cases f with
    | word w =>
      rw [Field.size] at h
      exact ⟨w.fits_decode order (by rw [List.length_take]; omega),
        ih (by rw [List.length_drop]; omega)⟩
    | bytes n =>
      -- neither a byte string nor a gap holds a number
      rw [Field.size] at h
      exact ih (by rw [List.length_drop]; omega)
    | gap n =>
      rw [Field.size] at h
      exact ih (by rw [List.length_drop]; omega)

/-- A row that starts with a byte string is written with its bytes in front. -/
theorem Layout.exists_of_encode?_bytes {order : ByteOrder} {n : Nat} {rest : Layout}
    {row : Row (.bytes n :: rest)} {bs : List UInt8}
    (h : encode? order (.bytes n :: rest) row = some bs) : ∃ more, bs = fitTo n row.1 ++ more := by
  rw [encode?] at h
  obtain ⟨more, -, hmore⟩ := Option.bind_eq_some_iff.mp h
  cases hmore
  exact ⟨more, rfl⟩

namespace Codec

variable {α ε : Type}

/-- Every integer of a record fits its word. -/
def Fits (c : Codec α) (a : α) : Prop := c.layout.Fits (c.toRow a)

/-- Every byte string of a record has the size of its field. -/
def Exact (c : Codec α) (a : α) : Prop := c.layout.Exact (c.toRow a)

/-- A file has the bytes of a record at a place. -/
def HeldAt (c : Codec α) (data : Bytes) (start : Nat) (a : α) : Prop :=
  ∃ bs, c.write? a = some bs ∧ data.HoldsAt start bs

instance (c : Codec α) (data : Bytes) (start : Nat) (a : α) : Decidable (c.HeldAt data start a) :=
  decidable_of_iff ((c.write? a).any fun bs => data.HoldsAt start bs)
    (by cases h : c.write? a <;> simp [HeldAt, h])

/-- The bytes of records one after the other, if every field fits. -/
def writeAll? (c : Codec α) : List α → Option (List UInt8)
  | [] => some []
  | a :: rest => do
    let here ← c.write? a
    let more ← writeAll? c rest
    return here ++ more

/-- Whatever fits is written. -/
theorem exists_write?_of_fits {c : Codec α} {a : α} (h : c.Fits a) : ∃ bs, c.write? a = some bs :=
  Option.isSome_iff_exists.mp ((c.layout.encode?_isSome_iff c.order (c.toRow a)).mpr h)

theorem length_of_write? {c : Codec α} {a : α} {bs : List UInt8} (h : c.write? a = some bs) :
    bs.length = c.size :=
  c.layout.length_of_encode? c.order h

/-- The record that the bytes at a place spell. -/
def recordAt (c : Codec α) (data : Bytes) (start : Nat) : α :=
  c.ofRow (c.layout.decode c.order (data.extract start (start + c.size)).toList)

/-- A part of the data that holds a record as a whole holds the same one. -/
theorem recordAt_extract (c : Codec α) (data : Bytes) {start stop skipped : Nat}
    (h : start + skipped + c.size ≤ stop) :
    c.recordAt (data.extract start stop) skipped = c.recordAt data (start + skipped) := by
  unfold recordAt
  rw [data.extract_extract_of_le (by omega), Nat.add_assoc]

/-- At a place of the file a record is read exactly when it ends within the file. -/
theorem readOr_eq (c : Codec α) (data : Bytes) (start : Nat) (short : ε)
    (outside : Misread → ε) :
    c.readOr data start short outside =
      if start + c.size ≤ data.size then .ok (c.recordAt data start) else .error short :=
  c.readOr_natCast data start short outside

/-- Reading at a place of the file only fails for want of bytes. -/
theorem error_of_readOr {c : Codec α} {data : Bytes} {start : Nat} {short : ε}
    {outside : Misread → ε} {e : ε} (h : c.readOr data start short outside = .error e) :
    e = short := by
  rw [readOr_eq] at h
  split at h <;> cases h
  rfl

/-- A record that was read, be it from the front or back from the end, fits its words. -/
theorem fits_of_readOr {c : Codec α} {data : Bytes} {offset : Int} {short : ε}
    {outside : Misread → ε} {a : α} (h : c.readOr data offset short outside = .ok a) :
    c.Fits a := by
  unfold readOr at h
  split at h
  next => cases h
  next =>
    -- however the bytes were found, there are as many of them as the record has
    obtain ⟨bs, hbytes, rfl⟩ := map_eq_ok_iff.mp (mapError_eq_ok_iff.mp h)
    rw [Fits, c.toRow_ofRow]
    exact c.layout.fits_decode c.order (Bytes.length_of_window hbytes)

/-- A record whose bytes stand at a place is the one that is there. -/
theorem recordAt_of_heldAt {c : Codec α} {data : Bytes} {start : Nat} {a : α} (hexact : c.Exact a)
    (h : c.HeldAt data start a) : c.recordAt data start = a := by
  obtain ⟨bs, hwrite, -, hbytes⟩ := h
  rw [length_of_write? hwrite] at hbytes
  -- the bytes at the place are those written, and decoding a row undoes encoding it
  have hrow := c.layout.decode_of_encode? c.order hwrite hexact []
  rw [List.append_nil] at hrow
  rw [recordAt, hbytes, hrow, c.ofRow_toRow]

/-- A record that a file holds is read back. -/
theorem readOr_of_heldAt {c : Codec α} {data : Bytes} {start : Nat} {a : α} (hexact : c.Exact a)
    (h : c.HeldAt data start a) (short : ε) (outside : Misread → ε) :
    c.readOr data start short outside = .ok a := by
  obtain ⟨bs, hwrite, hsize, -⟩ := id h
  rw [length_of_write? hwrite] at hsize
  rw [readOr_eq, if_pos hsize, recordAt_of_heldAt hexact h]

/-- A record whose bytes stand in a file fits its words. -/
theorem HeldAt.fits {c : Codec α} {data : Bytes} {start : Nat} {a : α}
    (h : c.HeldAt data start a) : c.Fits a := by
  obtain ⟨bs, hwrite, -⟩ := h
  have hsome : (c.write? a).isSome := by rw [hwrite]; rfl
  exact (c.layout.encode?_isSome_iff c.order (c.toRow a)).mp hsome

/-! ## Records one after the other -/

theorem writeAll?_cons {c : Codec α} {a : α} {rest : List α} {bs : List UInt8} :
    c.writeAll? (a :: rest) = some bs ↔
      ∃ here more, c.write? a = some here ∧ c.writeAll? rest = some more ∧ here ++ more = bs := by
  simp only [writeAll?, Option.bind_eq_bind, Option.bind_eq_some_iff, Option.pure_def,
    Option.some.injEq, exists_and_left]

/-- Records that fit are written one after the other. -/
theorem exists_writeAll?_of_fits {c : Codec α} {records : List α} (h : ∀ a ∈ records, c.Fits a) :
    ∃ bs, c.writeAll? records = some bs := by
  induction records with
  | nil => exact ⟨[], rfl⟩
  | cons a rest ih =>
    obtain ⟨here, hhere⟩ := exists_write?_of_fits (h a List.mem_cons_self)
    obtain ⟨more, hmore⟩ := ih fun b hb => h b (List.mem_cons_of_mem a hb)
    exact ⟨here ++ more, writeAll?_cons.mpr ⟨here, more, hhere, hmore, rfl⟩⟩

/-- So many records take so many times the size of one. -/
theorem length_of_writeAll? {c : Codec α} {records : List α} {bs : List UInt8}
    (h : c.writeAll? records = some bs) : bs.length = records.length * c.size := by
  induction records generalizing bs with
  | nil =>
    cases h
    rw [List.length_nil, List.length_nil, Nat.zero_mul]
  | cons a rest ih =>
    obtain ⟨here, more, hhere, hmore, rfl⟩ := writeAll?_cons.mp h
    rw [List.length_append, length_of_write? hhere, ih hmore, List.length_cons, Nat.succ_mul,
      Nat.add_comm]

/-- Of records that stand one after the other each one stands at its place. -/
theorem heldAt_of_writeAll? {c : Codec α} {data : Bytes} {start : Nat} {records : List α}
    {bs : List UInt8} (h : c.writeAll? records = some bs) (hheld : data.HoldsAt start bs) {i : Nat}
    {a : α} (hi : records[i]? = some a) : c.HeldAt data (start + i * c.size) a := by
  -- the place moves on by the size of a record with each one that is passed
  induction records generalizing start bs i with
  | nil => cases hi
  | cons first rest ih =>
    obtain ⟨here, more, hhere, hmore, rfl⟩ := writeAll?_cons.mp h
    cases i with
    | zero =>
      cases hi
      rw [Nat.zero_mul, Nat.add_zero]
      exact ⟨here, hhere, hheld.take⟩
    | succ i =>
      -- the records behind the first start where its bytes end
      have hrest := ih hmore hheld.drop hi
      rw [length_of_write? hhere] at hrest
      rwa [Nat.succ_mul, Nat.add_comm (i * c.size), ← Nat.add_assoc]

end Codec

end Provenance
