import Provenance.Bytes
import Provenance.Bytes.Word

/-!
# Record layouts

A record is a fixed sequence of fields: words, byte strings of fixed size, and gaps that carry
nothing.

* `Layout` — the fields in order; `Layout.size` is the number of bytes they take.
* `Layout.Row` — one value for each field that carries one.
* `Layout.decode`, `Layout.encode?` — a row from bytes and back. Writing fails exactly when some
  integer does not fit its word.
* `Layout.cleared` — what is written again of the bytes that a row was read from.
* `Layout.readEach` — a row from the fields at their places in a file, one by one.
* `Codec` — a record type that is the same thing as the rows of a layout, with reading it at a
  position of a file (`Codec.read`) and writing it (`Codec.write?`).
-/

namespace Provenance

/-- A field of a record. -/
inductive Field where
  /-- An integer. -/
  | word (w : Word)
  /-- A byte string of fixed size. -/
  | bytes (size : Nat)
  /-- Bytes that carry nothing: skipped when read, zero when written. -/
  | gap (size : Nat)
  deriving DecidableEq, Repr

namespace Field

/-- The number of bytes that a field takes. -/
def size : Field → Nat
  | word w => w.width
  | bytes size => size
  | gap size => size

/-- A field in a format string. -/
def format : Field → String
  | word w => w.letter
  | bytes size => toString size ++ "s"
  | gap size => toString size ++ "x"

/-- The bytes of a field at the front of a byte string, or zeros if it is a gap. -/
def cleared : Field → List UInt8 → List UInt8
  | word w, bs => bs.take w.width
  | bytes size, bs => bs.take size
  | gap size, _ => List.replicate size 0

end Field

/-- Cuts a byte string to a size, or fills it up with zeros. -/
def fitTo (size : Nat) (bs : List UInt8) : List UInt8 :=
  bs.take size ++ List.replicate (size - bs.length) 0

@[simp] theorem length_fitTo (size : Nat) (bs : List UInt8) : (fitTo size bs).length = size := by
  simp only [fitTo, List.length_append, List.length_take, List.length_replicate]
  omega

theorem fitTo_eq_self {size : Nat} {bs : List UInt8} (h : bs.length = size) :
    fitTo size bs = bs := by
  simp [fitTo, h, List.take_of_length_le]

/-- The fields of a record, in order. -/
abbrev Layout := List Field

namespace Layout

/-- The number of bytes that a record takes. -/
def size : Layout → Nat
  | [] => 0
  | f :: rest => f.size + size rest

/-- The format string of a layout. -/
def format (l : Layout) (order : ByteOrder) : String :=
  order.mark ++ String.join (l.map Field.format)

/-- One value for each field that carries one. -/
def Row : Layout → Type
  | [] => Unit
  | .word _ :: rest => Int × Row rest
  | .bytes _ :: rest => List UInt8 × Row rest
  | .gap _ :: rest => Row rest

/-- The row that the bytes of a record spell. -/
def decode (order : ByteOrder) : (l : Layout) → List UInt8 → l.Row
  | [], _ => ()
  | .word w :: rest, bs => (w.decode order (bs.take w.width), decode order rest (bs.drop w.width))
  | .bytes n :: rest, bs => (bs.take n, decode order rest (bs.drop n))
  | .gap n :: rest, bs => decode order rest (bs.drop n)

/-- The row at an offset of a file, each field being read at its own place. With a negative offset
the fields may lie at both ends of the file. -/
def readEach (order : ByteOrder) (data : Bytes) : (l : Layout) → Int → Except Misread l.Row
  | [], _ => .ok ()
  | .word w :: rest, offset => do
    let here ← w.read order data offset
    let more ← readEach order data rest (offset + w.width)
    return (here, more)
  | .bytes n :: rest, offset => do
    let here ← data.window offset n
    let more ← readEach order data rest (offset + n)
    return (here, more)
  | .gap n :: rest, offset => readEach order data rest (offset + n)

/-- The bytes of a row, if every integer fits its word. -/
def encode? (order : ByteOrder) : (l : Layout) → l.Row → Option (List UInt8)
  | [], _ => some []
  | .word w :: rest, row => do
    let here ← w.encode? order row.1
    let more ← encode? order rest row.2
    return here ++ more
  | .bytes n :: rest, row => do
    let more ← encode? order rest row.2
    return fitTo n row.1 ++ more
  | .gap n :: rest, row => do
    let more ← encode? order rest row
    return List.replicate n 0 ++ more

/-- Every integer of a row fits its word. -/
def Fits : (l : Layout) → l.Row → Prop
  | [], _ => True
  | .word w :: rest, row => w.Fits row.1 ∧ Fits rest row.2
  | .bytes _ :: rest, row => Fits rest row.2
  | .gap _ :: rest, row => Fits rest row

/-- Every byte string of a row has the size of its field. -/
def Exact : (l : Layout) → l.Row → Prop
  | [], _ => True
  | .word _ :: rest, row => Exact rest row.2
  | .bytes n :: rest, row => row.1.length = n ∧ Exact rest row.2
  | .gap _ :: rest, row => Exact rest row

/-- The bytes of a record, with zeros in the gaps. -/
def cleared : Layout → List UInt8 → List UInt8
  | [], _ => []
  | f :: rest, bs => f.cleared bs ++ cleared rest (bs.drop f.size)

/-- No byte of the record is in a gap. -/
def Dense : Layout → Prop
  | [] => True
  | .word _ :: rest => Dense rest
  | .bytes _ :: rest => Dense rest
  | .gap _ :: _ => False

/-- Writing fails exactly when some integer does not fit. -/
theorem encode?_isSome_iff (order : ByteOrder) (l : Layout) (row : l.Row) :
    (l.encode? order row).isSome ↔ l.Fits row := by
  -- field by field; only a word can refuse what it is given
  induction l with
  | nil => simp [encode?, Fits]
  | cons f rest ih =>
    cases f with
    | word w =>
      rw [Fits, ← ih row.2, encode?]
      have hw : w.encode? order row.1 = none ↔ ¬ w.Fits row.1 := Word.encode?_eq_none_iff
      cases he : w.encode? order row.1 with
      | none => simp [hw.1 he]
      | some here =>
        have hfits : w.Fits row.1 := Classical.byContradiction fun hn => by
          rw [hw.2 hn] at he
          cases he
        cases hr : encode? order rest row.2 <;> simp [hfits]
    | bytes n =>
      rw [Fits, ← ih row.2, encode?]
      cases encode? order rest row.2 <;> simp
    | gap n =>
      rw [Fits, ← ih row, encode?]
      cases encode? order rest row <;> simp

theorem length_of_encode? (order : ByteOrder) (l : Layout) {row : l.Row} {bs : List UInt8}
    (h : l.encode? order row = some bs) : bs.length = l.size := by
  induction l generalizing bs with
  | nil =>
    cases h
    rfl
  | cons f rest ih =>
    cases f with
    | word w =>
      simp only [encode?, Option.bind_eq_bind, Option.bind_eq_some_iff, Option.pure_def,
        Option.some.injEq] at h
      obtain ⟨here, hh, more, hm, rfl⟩ := h
      simp [size, Field.size, Word.length_of_encode? hh, ih hm]
    | bytes n =>
      simp only [encode?, Option.bind_eq_bind, Option.bind_eq_some_iff, Option.pure_def,
        Option.some.injEq] at h
      obtain ⟨more, hm, rfl⟩ := h
      simp [size, Field.size, ih hm]
    | gap n =>
      simp only [encode?, Option.bind_eq_bind, Option.bind_eq_some_iff, Option.pure_def,
        Option.some.injEq] at h
      obtain ⟨more, hm, rfl⟩ := h
      simp [size, Field.size, ih hm]

/-- A row that was written reads back, whatever bytes follow. -/
theorem decode_of_encode? (order : ByteOrder) (l : Layout) {row : l.Row} {bs : List UInt8}
    (h : l.encode? order row = some bs) (hexact : l.Exact row) (tail : List UInt8) :
    l.decode order (bs ++ tail) = row := by
  -- each field takes its own bytes off the front and leaves the rest to the fields behind it
  induction l generalizing bs with
  | nil => rfl
  | cons f rest ih =>
    cases f with
    | word w =>
      simp only [encode?, Option.bind_eq_bind, Option.bind_eq_some_iff, Option.pure_def,
        Option.some.injEq] at h
      obtain ⟨here, hh, more, hm, rfl⟩ := h
      have hlen := Word.length_of_encode? hh
      rw [decode, List.append_assoc, List.take_left' hlen, List.drop_left' hlen,
        Word.decode_of_encode? hh, ih hm hexact]
      rfl
    | bytes n =>
      simp only [encode?, Option.bind_eq_bind, Option.bind_eq_some_iff, Option.pure_def,
        Option.some.injEq] at h
      obtain ⟨more, hm, rfl⟩ := h
      -- bytes of the right length are neither cut nor filled up
      rw [decode, List.append_assoc, List.take_left' (length_fitTo ..),
        List.drop_left' (length_fitTo ..), fitTo_eq_self hexact.1, ih hm hexact.2]
      rfl
    | gap n =>
      simp only [encode?, Option.bind_eq_bind, Option.bind_eq_some_iff, Option.pure_def,
        Option.some.injEq] at h
      obtain ⟨more, hm, rfl⟩ := h
      rw [decode, List.append_assoc, List.drop_left' List.length_replicate, ih hm hexact]

/-- The bytes that a row was read from are written again, but for those in gaps. -/
theorem encode?_decode (order : ByteOrder) (l : Layout) {bs : List UInt8}
    (h : bs.length = l.size) : l.encode? order (l.decode order bs) = some (l.cleared bs) := by
  induction l generalizing bs with
  | nil => rfl
  | cons f rest ih =>
    cases f with
    | word w =>
      simp only [size, Field.size] at h
      have hw := @Word.encode?_decode w order (bs.take w.width) (by simp; omega)
      have hr := @ih (bs.drop w.width) (by simp; omega)
      simp [decode, encode?, cleared, Field.cleared, Field.size, hw, hr]
    | bytes n =>
      simp only [size, Field.size] at h
      have hr := @ih (bs.drop n) (by simp; omega)
      have hfit : fitTo n (bs.take n) = bs.take n := fitTo_eq_self (by simp; omega)
      simp [decode, encode?, cleared, Field.cleared, Field.size, hr, hfit]
    -- what stands in a gap is forgotten, and zeros are written for it
    | gap n =>
      simp only [size, Field.size] at h
      have hr := @ih (bs.drop n) (by simp; omega)
      simp [decode, encode?, cleared, Field.cleared, Field.size, hr]

/-- Without gaps there is nothing to clear. -/
theorem cleared_of_dense (l : Layout) (hdense : l.Dense) {bs : List UInt8}
    (h : bs.length = l.size) : l.cleared bs = bs := by
  induction l generalizing bs with
  | nil => exact (List.eq_nil_of_length_eq_zero h).symm
  | cons f rest ih =>
    have hrest : (bs.drop f.size).length = size rest := by
      rw [List.length_drop, h, size, Nat.add_sub_cancel_left]
    cases f with
    | word w => rw [cleared, ih hdense hrest, Field.cleared, Field.size, List.take_append_drop]
    | bytes n => rw [cleared, ih hdense hrest, Field.cleared, Field.size, List.take_append_drop]
    | gap n => exact hdense.elim

/-- Where a row lies in the data as a whole, reading it field by field makes no difference. -/
theorem readEach_natCast (order : ByteOrder) (l : Layout) (data : Bytes) (n : Nat)
    (h : n + l.size ≤ data.size) :
    l.readEach order data n = .ok (l.decode order (data.extract n (n + l.size)).toList) := by
  induction l generalizing n with
  | nil => rfl
  | cons f rest ih =>
    have hsize : n + f.size + size rest ≤ data.size := by
      rw [size] at h
      omega
    -- reading goes on at the end of the field, in the same stretch of the data
    have hdrop := data.drop_extract n f.size (size rest)
    have htake := data.take_extract n f.size (size rest)
    cases f with
    | word w =>
      simp only [Field.size] at hsize hdrop htake
      have hrest := ih (n + w.width) hsize
      rw [readEach, decode, size, Field.size, Word.read, Bytes.window_natCast, if_pos (by omega)]
      push_cast at hrest
      rw [hrest, hdrop, htake]
      rfl
    | bytes k =>
      simp only [Field.size] at hsize hdrop htake
      have hrest := ih (n + k) hsize
      rw [readEach, decode, size, Field.size, Bytes.window_natCast, if_pos (by omega)]
      push_cast at hrest
      rw [hrest, hdrop, htake]
      rfl
    | gap k =>
      simp only [Field.size] at hsize hdrop
      have hrest := ih (n + k) hsize
      rw [readEach, decode, size, Field.size, hdrop]
      push_cast at hrest
      exact hrest

end Layout

/-- A record type whose values are the rows of a layout in one byte order. -/
structure Codec (α : Type) where
  /-- The fields of the record. -/
  layout : Layout
  /-- The byte order of its words. -/
  order : ByteOrder
  /-- The record with the given field values. -/
  ofRow : layout.Row → α
  /-- The field values of a record. -/
  toRow : α → layout.Row
  /-- A record is rebuilt from its field values. -/
  ofRow_toRow : ∀ a, ofRow (toRow a) = a := by intro; rfl
  /-- No field value is lost in a record. -/
  toRow_ofRow : ∀ row, toRow (ofRow row) = row := by intro; rfl

namespace Codec

variable {α : Type}

/-- The rows of a layout, taken as records. -/
def rows (layout : Layout) (order : ByteOrder) : Codec layout.Row where
  layout := layout
  order := order
  ofRow := id
  toRow := id

/-- The number of bytes that a record takes. -/
def size (c : Codec α) : Nat := c.layout.size

/-- The format string of the record. -/
def format (c : Codec α) : String := c.layout.format c.order

/-- The record at an offset of a file, if it lies in the file as a whole. -/
def read (c : Codec α) (data : Bytes) (offset : Int) : Except Misread α :=
  (data.window offset c.size).map fun bs => c.ofRow (c.layout.decode c.order bs)

/-- The record at an offset of a file, each field being read at its own place. -/
def readEach (c : Codec α) (data : Bytes) (offset : Int) : Except Misread α :=
  (c.layout.readEach c.order data offset).map c.ofRow

/-- The bytes of a record, if every field fits. -/
def write? (c : Codec α) (a : α) : Option (List UInt8) :=
  c.layout.encode? c.order (c.toRow a)

/-- Reads the record at an offset, with the failure `short` if the data end before the record does,
and `outside` if they do not but a negative offset names a place that does not exist. -/
def readOr {ε : Type} (c : Codec α) (data : Bytes) (offset : Int) (short : ε)
    (outside : Misread → ε) : Except ε α :=
  if data.size < offset + c.size then .error short
  else (c.read data offset).mapError outside

/-- Reading at a non-negative offset fails exactly when the data end before the record does. -/
theorem readOr_natCast {ε : Type} (c : Codec α) (data : Bytes) (n : Nat) (short : ε)
    (outside : Misread → ε) :
    c.readOr data n short outside =
      if n + c.size ≤ data.size then
        .ok (c.ofRow (c.layout.decode c.order (data.extract n (n + c.size)).toList))
      else .error short := by
  unfold readOr
  by_cases h : n + c.size ≤ data.size
  · rw [if_neg (by omega), if_pos h, read, Bytes.window_natCast, if_pos h]
    rfl
  · rw [if_pos (by omega), if_neg h]

/-- Where a record lies in the data as a whole, reading it field by field makes no difference. -/
theorem readEach_natCast (c : Codec α) (data : Bytes) (n : Nat) (h : n + c.size ≤ data.size) :
    c.readEach data n = c.read data n := by
  rw [readEach, Layout.readEach_natCast c.order c.layout data n h, read, Bytes.window_natCast,
    if_pos h]
  rfl

end Codec

end Provenance
