import Provenance.Bytes

/-!
# Words

Integers of a fixed number of bytes, in either byte order, unsigned or in two's complement.

* `ByteOrder.encode`, `ByteOrder.decode` — a natural number as a list of bytes, with
  `decode_encode` (up to the modulus) and `encode_decode`.
* `Word.Fits` — the integers that a word can hold.
* `Word.encode?`, `Word.decode` — the same for integers; writing is refused exactly for an integer
  that does not fit.
* `Word.read` — the integer at an offset of a file.
-/

namespace Provenance

/-- Which byte of a word comes first. -/
inductive ByteOrder where
  /-- The least significant byte comes first. -/
  | little
  /-- The most significant byte comes first. -/
  | big
  deriving DecidableEq, Repr

/-- The low `width` bytes of a number, the least significant first. -/
def littleEndian : Nat → Nat → List UInt8
  | 0, _ => []
  | width + 1, n => UInt8.ofNat (n % 256) :: littleEndian width (n / 256)

/-- The number whose bytes, the least significant first, are given. -/
def ofLittleEndian (bs : List UInt8) : Nat :=
  bs.foldr (fun b n => b.toNat + 256 * n) 0

/-- How many numbers a row of bytes can spell: 256 for each byte. -/
def byteSpan : Nat → Nat
  | 0 => 1
  | width + 1 => 256 * byteSpan width

namespace ByteOrder

/-- The mark of a byte order in a format string. -/
def mark : ByteOrder → String
  | little => "<"
  | big => ">"

/-- The low `width` bytes of a number. -/
def encode (order : ByteOrder) (width n : Nat) : List UInt8 :=
  match order with
  | little => littleEndian width n
  | big => (littleEndian width n).reverse

/-- The number that a list of bytes spells. -/
def decode (order : ByteOrder) (bs : List UInt8) : Nat :=
  match order with
  | little => ofLittleEndian bs
  | big => ofLittleEndian bs.reverse

end ByteOrder

theorem byteSpan_pos (width : Nat) : 0 < byteSpan width := by
  induction width with
  | zero => exact Nat.one_pos
  | succ width ih => exact Nat.mul_pos (by omega) ih

@[simp] theorem length_littleEndian (width n : Nat) : (littleEndian width n).length = width := by
  induction width generalizing n with
  | zero => rfl
  | succ width ih => simp [littleEndian, ih]

theorem ofLittleEndian_littleEndian (width n : Nat) :
    ofLittleEndian (littleEndian width n) = n % byteSpan width := by
  induction width generalizing n with
  | zero => simp [littleEndian, ofLittleEndian, byteSpan, Nat.mod_one]
  | succ width ih =>
    have hrest := ih (n / 256)
    simp only [littleEndian, ofLittleEndian, List.foldr_cons] at hrest ⊢
    rw [hrest, byteSpan, Nat.mod_mul]
    simp

theorem littleEndian_ofLittleEndian (bs : List UInt8) :
    littleEndian bs.length (ofLittleEndian bs) = bs := by
  induction bs with
  | nil => rfl
  | cons b rest ih =>
    have hb := b.toNat_lt
    simp only [List.length_cons, littleEndian, ofLittleEndian, List.foldr_cons] at ih ⊢
    -- quotient and remainder by 256 are the further bytes and the first one
    rw [show (b.toNat + 256 * List.foldr (fun b n => b.toNat + 256 * n) 0 rest) / 256
        = List.foldr (fun b n => b.toNat + 256 * n) 0 rest by omega, ih]
    congr 1
    rw [show (b.toNat + 256 * List.foldr (fun b n => b.toNat + 256 * n) 0 rest) % 256 = b.toNat by
      omega]
    simp

theorem ofLittleEndian_lt (bs : List UInt8) : ofLittleEndian bs < byteSpan bs.length := by
  induction bs with
  | nil => simp [ofLittleEndian, byteSpan]
  | cons b rest ih =>
    have hb := b.toNat_lt
    simp only [ofLittleEndian, List.foldr_cons, List.length_cons, byteSpan] at ih ⊢
    omega

namespace ByteOrder

@[simp] theorem length_encode (order : ByteOrder) (width n : Nat) :
    (order.encode width n).length = width := by
  cases order <;> simp [encode]

theorem decode_encode (order : ByteOrder) (width n : Nat) :
    order.decode (order.encode width n) = n % byteSpan width := by
  cases order <;> simp [encode, decode, ofLittleEndian_littleEndian]

theorem encode_decode (order : ByteOrder) (bs : List UInt8) :
    order.encode bs.length (order.decode bs) = bs := by
  cases order with
  | little => exact littleEndian_ofLittleEndian bs
  | big =>
    have h := littleEndian_ofLittleEndian bs.reverse
    rw [List.length_reverse] at h
    simp only [encode, decode, h, List.reverse_reverse]

theorem decode_lt (order : ByteOrder) (bs : List UInt8) : order.decode bs < byteSpan bs.length := by
  cases order with
  | little => exact ofLittleEndian_lt bs
  | big => simpa [decode] using ofLittleEndian_lt bs.reverse

end ByteOrder

/-- An integer of a fixed number of bytes. -/
structure Word where
  /-- The number of bytes. -/
  width : Nat
  /-- Whether the bytes are a two's complement. -/
  signed : Bool
  deriving DecidableEq, Repr

namespace Word

/-- One unsigned byte. -/
def u8 : Word := ⟨1, false⟩

/-- Two unsigned bytes. -/
def u16 : Word := ⟨2, false⟩

/-- Four unsigned bytes. -/
def u32 : Word := ⟨4, false⟩

/-- Eight unsigned bytes. -/
def u64 : Word := ⟨8, false⟩

/-- Four bytes in two's complement. -/
def i32 : Word := ⟨4, true⟩

/-- Eight bytes in two's complement. -/
def i64 : Word := ⟨8, true⟩

/-- How many different integers a word holds. -/
def modulus (w : Word) : Nat := byteSpan w.width

/-- The integers that a word holds. -/
def Fits (w : Word) (v : Int) : Prop :=
  if w.signed then -w.modulus ≤ 2 * v ∧ 2 * v < w.modulus else 0 ≤ v ∧ v < w.modulus

instance (w : Word) (v : Int) : Decidable (w.Fits v) := by
  unfold Fits
  infer_instance

/-- The integer that a number below the modulus stands for. -/
def ofNat (w : Word) (n : Nat) : Int :=
  if w.signed ∧ w.modulus ≤ 2 * n then (n : Int) - w.modulus else n

/-- The integer that the bytes of a word spell. -/
def decode (w : Word) (order : ByteOrder) (bs : List UInt8) : Int :=
  w.ofNat (order.decode bs)

/-- The bytes of an integer, if it fits. -/
def encode? (w : Word) (order : ByteOrder) (v : Int) : Option (List UInt8) :=
  if w.Fits v then some (order.encode w.width (v % w.modulus).toNat) else none

/-- The integer at an offset of a file, if the word lies in the file as a whole. -/
def read (w : Word) (order : ByteOrder) (data : Bytes) (offset : Int) : Except Misread Int :=
  (data.window offset w.width).map (w.decode order)

/-- The letter of a word in a format string; upper case marks an unsigned one. -/
def letter (w : Word) : String :=
  match w.width, w.signed with
  | 1, false => "B"
  | 1, true => "b"
  | 2, false => "H"
  | 2, true => "h"
  | 4, false => "I"
  | 4, true => "i"
  | 8, false => "Q"
  | 8, true => "q"
  | _, _ => "?"

theorem modulus_pos (w : Word) : 0 < w.modulus := byteSpan_pos w.width

/-- Writing is refused exactly for an integer that the word cannot hold. -/
theorem encode?_eq_none_iff {w : Word} {order : ByteOrder} {v : Int} :
    w.encode? order v = none ↔ ¬ w.Fits v := by
  unfold encode?
  by_cases h : w.Fits v <;> simp [h]

theorem length_of_encode? {w : Word} {order : ByteOrder} {v : Int} {bs : List UInt8}
    (h : w.encode? order v = some bs) : bs.length = w.width := by
  unfold encode? at h
  split at h
  · cases h
    simp
  · cases h

/-- An integer that fits is what its residue stands for. -/
theorem ofNat_emod {w : Word} {v : Int} (h : w.Fits v) : w.ofNat (v % w.modulus).toNat = v := by
  have hm := w.modulus_pos
  unfold Fits at h
  unfold ofNat
  -- a negative number is moved up by the modulus, and is then in the upper half
  by_cases hneg : v < 0
  · have he : v % (w.modulus : Int) = v + w.modulus := by
      rw [← Int.add_emod_right, Int.emod_eq_of_lt] <;> split at h <;> omega
    rw [he]
    split at h
    next hs =>
      rw [if_pos ⟨hs, by omega⟩]
      omega
    next => omega
  · have he : v % (w.modulus : Int) = v := by
      apply Int.emod_eq_of_lt <;> split at h <;> omega
    rw [he, if_neg]
    · omega
    · rintro ⟨hs, hbig⟩
      rw [if_pos hs] at h
      omega

/-- The integer that a number stands for fits, and has that number as its residue. -/
theorem fits_ofNat {w : Word} {n : Nat} (h : n < w.modulus) :
    w.Fits (w.ofNat n) ∧ (w.ofNat n % w.modulus).toNat = n := by
  unfold Fits ofNat
  by_cases hbig : w.signed = true ∧ w.modulus ≤ 2 * n
  · have he : ((n : Int) - w.modulus) % w.modulus = n := by
      rw [← Int.add_emod_right, Int.emod_eq_of_lt] <;> omega
    rw [if_pos hbig, if_pos hbig.1, he]
    omega
  · rw [if_neg hbig, Int.emod_eq_of_lt (by omega) (by omega)]
    refine ⟨?_, by omega⟩
    split
    next hs =>
      have : ¬ w.modulus ≤ 2 * n := fun hle => hbig ⟨hs, hle⟩
      omega
    next => omega

/-- An integer that was written reads back. -/
theorem decode_of_encode? {w : Word} {order : ByteOrder} {v : Int} {bs : List UInt8}
    (h : w.encode? order v = some bs) : w.decode order bs = v := by
  unfold encode? at h
  split at h
  next hfits =>
    cases h
    have hm := w.modulus_pos
    -- a residue has room in the bytes of the word
    have hlt : (v % w.modulus).toNat < byteSpan w.width := by
      change _ < w.modulus
      have := Int.emod_lt_of_pos v (b := w.modulus) (by omega)
      omega
    rw [decode, ByteOrder.decode_encode, Nat.mod_eq_of_lt hlt, ofNat_emod hfits]
  next => cases h

/-- Bytes that were read are written again. -/
theorem encode?_decode (w : Word) (order : ByteOrder) {bs : List UInt8} (h : bs.length = w.width) :
    w.encode? order (w.decode order bs) = some bs := by
  have hlt := order.decode_lt bs
  have henc := order.encode_decode bs
  rw [h] at hlt henc
  have hfits := fits_ofNat (w := w) hlt
  rw [encode?, decode, if_pos hfits.1, hfits.2, henc]

end Word

end Provenance
