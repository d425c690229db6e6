import Provenance.Bytes.Word
import Provenance.Number.Double

/-!
# Heads of MessagePack values

Every value starts with a head: one byte that tells its kind, with small numbers in the same byte,
and up to nine bytes that hold a number or a size.

* `Head` — a value that is all head, or the size of what follows it.
* `Head.encode?` — the shortest bytes of a head.
* `Head.read` — the head at the start of some bytes, in any of its forms.
-/

namespace Provenance.MessagePack

/-- The start of a value. -/
inductive Head where
  /-- No value. -/
  | nil
  /-- A truth value. -/
  | bool (b : Bool)
  /-- An integer. -/
  | int (n : Int)
  /-- A double. -/
  | float (d : Double)
  /-- A text of so many bytes. -/
  | str (size : Nat)
  /-- A byte string of so many bytes. -/
  | bin (size : Nat)
  /-- So many values. -/
  | array (count : Nat)
  /-- So many pairs of values. -/
  | map (count : Nat)
  /-- A kind of extension, with so many bytes. -/
  | ext (code : Int) (size : Nat)
  deriving DecidableEq, Repr

/-- Why bytes are not a value. -/
inductive DecodeError where
  /-- The byte that starts no value. -/
  | reservedByte
  /-- Containers inside one another past the limit. -/
  | tooDeep
  /-- Bytes after the value. -/
  | leftover
  /-- A text that is not UTF-8. -/
  | malformedText
  /-- The bytes end inside the value. -/
  | truncated
  /-- A container that claims more elements than there are bytes for. -/
  | oversized
  /-- A key that is neither a text nor a byte string. -/
  | unsupportedKey
  /-- An extension of a reserved kind, or a point in time that is none. -/
  | unsupportedExtension
  deriving DecidableEq, Repr

/-- Why a value cannot be written. -/
inductive EncodeError where
  /-- An integer of more than 64 bits. -/
  | outOfRange
  /-- A text, byte string or container of 2³² elements or more. -/
  | tooLong
  /-- Values inside one another past the limit. -/
  | tooDeep
  /-- A text that UTF-8 has no bytes for. -/
  | malformedText
  deriving DecidableEq, Repr

/-- Reads something from the start of some bytes; the answer holds the bytes after it. -/
abbrev Reader (α : Type) := List UInt8 → Except DecodeError (α × List UInt8)

/-- The first `count` bytes, after those in `done`, which are in reverse. -/
def takeBytesOnto (done : List UInt8) : Nat → Reader (List UInt8)
  | 0, rest => .ok (done.reverse, rest)
  | count + 1, b :: rest => takeBytesOnto (b :: done) count rest
  | _ + 1, [] => .error .truncated

/-- The first `count` bytes. -/
def takeBytes (count : Nat) : Reader (List UInt8) := takeBytesOnto [] count

/-- A number of `width` bytes, the most significant first. -/
def takeNumber (width : Nat) : Reader Nat := fun bs =>
  match takeBytes width bs with
  | .ok (digits, rest) => .ok (ByteOrder.big.decode digits, rest)
  | .error e => .error e

/-- An integer of `width` bytes in two's complement. -/
def takeSigned (width : Nat) : Reader Int := fun bs =>
  match takeNumber width bs with
  | .ok (n, rest) => .ok ((Word.mk width true).ofNat n, rest)
  | .error e => .error e

/-- The bytes of a number, the most significant first. -/
def numberBytes (width n : Nat) : List UInt8 := ByteOrder.big.encode width n

/-- The bytes in front of some others are read back. -/
theorem takeBytes_append (bs rest : List UInt8) :
    takeBytes bs.length (bs ++ rest) = .ok (bs, rest) := by
  suffices h : ∀ done, takeBytesOnto done bs.length (bs ++ rest) = .ok (done.reverse ++ bs, rest) by
    simpa [takeBytes] using h []
  induction bs with
  | nil =>
    intro done
    simp [takeBytesOnto]
  | cons b bs ih =>
    intro done
    simp [takeBytesOnto, ih]

/-- Bytes are only taken from the front: what was taken and what is left are the whole. -/
theorem append_of_takeBytes {count : Nat} {bs taken rest : List UInt8}
    (h : takeBytes count bs = .ok (taken, rest)) : taken.length = count ∧ bs = taken ++ rest := by
  -- the loop holds what it has taken in reverse, so the statement is made for any such start
  suffices hgen : ∀ done, takeBytesOnto done count bs = .ok (taken, rest) →
      taken.length = done.length + count ∧ done.reverse ++ bs = taken ++ rest by
    simpa using hgen [] h
  clear h
  induction count generalizing bs with
  | zero =>
    intro done h
    simp only [takeBytesOnto, Except.ok.injEq, Prod.mk.injEq] at h
    obtain ⟨rfl, rfl⟩ := h
    simp
  | succ count ih =>
    intro done h
    cases bs with
    | nil => cases h
    | cons b bs =>
      obtain ⟨hlen, happ⟩ := ih (b :: done) h
      refine ⟨?_, by simpa using happ⟩
      rw [hlen, List.length_cons]
      omega

/-- A number that was written is read back. -/
theorem takeNumber_numberBytes {width n : Nat} (h : n < byteSpan width) (rest : List UInt8) :
    takeNumber width (numberBytes width n ++ rest) = .ok (n, rest) := by
  have htake := takeBytes_append (numberBytes width n) rest
  rw [numberBytes, ByteOrder.length_encode] at htake
  rw [takeNumber, numberBytes, htake]
  simp only [ByteOrder.decode_encode, Nat.mod_eq_of_lt h]

/-- The bytes of an integer in two's complement. -/
def signedBytes (width : Nat) (n : Int) : List UInt8 :=
  numberBytes width (n % byteSpan width).toNat

namespace Head

/-- A head that is one byte and a number. -/
def counted (mark : UInt8) (width n : Nat) : List UInt8 := mark :: numberBytes width n

/-- The shortest of three forms that a size takes, with one, two or four bytes. -/
def sized (mark8? : Option UInt8) (mark16 mark32 : UInt8) (size : Nat) : Option (List UInt8) :=
  match mark8? with
  | some mark8 =>
    if size < 0x100 then some (counted mark8 1 size)
    else if size < 0x10000 then some (counted mark16 2 size)
    else if size < 0x100000000 then some (counted mark32 4 size)
    else none
  | none =>
    if size < 0x10000 then some (counted mark16 2 size)
    else if size < 0x100000000 then some (counted mark32 4 size)
    else none

/-- The shortest form of an integer of at most 64 bits. -/
def encodeInt (n : Int) : Option (List UInt8) :=
  if 0 ≤ n then
    let m := n.toNat
    if m < 0x80 then some [UInt8.ofNat m]
    else if m < 0x100 then some (counted 0xCC 1 m)
    else if m < 0x10000 then some (counted 0xCD 2 m)
    else if m < 0x100000000 then some (counted 0xCE 4 m)
    else if m < 0x10000000000000000 then some (counted 0xCF 8 m)
    else none
  else if -32 ≤ n then some (signedBytes 1 n)
  else if -0x80 ≤ n then some (0xD0 :: signedBytes 1 n)
  else if -0x8000 ≤ n then some (0xD1 :: signedBytes 2 n)
  else if -0x80000000 ≤ n then some (0xD2 :: signedBytes 4 n)
  else if -0x8000000000000000 ≤ n then some (0xD3 :: signedBytes 8 n)
  else none

/-- The marks of extensions of 1, 2, 4, 8 and 16 bytes. -/
def fixedExt? : Nat → Option UInt8
  | 1 => some 0xD4
  | 2 => some 0xD5
  | 4 => some 0xD6
  | 8 => some 0xD7
  | 16 => some 0xD8
  | _ => none

/-- The bytes of a head, or why there are none. -/
def encode : Head → Except EncodeError (List UInt8)
  | nil => .ok [0xC0]
  | bool b => .ok [if b then 0xC3 else 0xC2]
  | int n => (encodeInt n).elim (.error .outOfRange) .ok
  | float d => .ok (counted 0xCB 8 d.bits.toNat)
  | str size =>
    if size < 32 then .ok [UInt8.ofNat (0xA0 + size)]
    else (sized (some 0xD9) 0xDA 0xDB size).elim (.error .tooLong) .ok
  | bin size => (sized (some 0xC4) 0xC5 0xC6 size).elim (.error .tooLong) .ok
  | array count =>
    if count < 16 then .ok [UInt8.ofNat (0x90 + count)]
    else (sized none 0xDC 0xDD count).elim (.error .tooLong) .ok
  | map count =>
    if count < 16 then .ok [UInt8.ofNat (0x80 + count)]
    else (sized none 0xDE 0xDF count).elim (.error .tooLong) .ok
  | ext code size =>
    match fixedExt? size with
    | some mark => .ok (mark :: signedBytes 1 code)
    | none =>
      (sized (some 0xC7) 0xC8 0xC9 size).elim (.error .tooLong) fun bs =>
        .ok (bs ++ signedBytes 1 code)

/-- A head made from what is read after its first byte. -/
def after {α : Type} (read : Reader α) (make : α → Head) : Reader Head := fun bs =>
  match read bs with
  | .ok (a, rest) => .ok (make a, rest)
  | .error e => .error e

/-- An extension whose size is read, then its kind. -/
def sizedExt (width : Nat) : Reader Head := fun bs =>
  match takeNumber width bs with
  | .ok (size, rest) => after (takeSigned 1) (ext · size) rest
  | .error e => .error e

/-- The head that a first byte from C0 to DF starts. -/
def afterMark (mark : UInt8) : Reader Head :=
  match mark with
  | 0xC0 => fun bs => .ok (nil, bs)
  | 0xC1 => fun _ => .error .reservedByte
  | 0xC2 => fun bs => .ok (bool false, bs)
  | 0xC3 => fun bs => .ok (bool true, bs)
  | 0xC4 => after (takeNumber 1) bin
  | 0xC5 => after (takeNumber 2) bin
  | 0xC6 => after (takeNumber 4) bin
  | 0xC7 => sizedExt 1
  | 0xC8 => sizedExt 2
  | 0xC9 => sizedExt 4
  | 0xCA => after (takeNumber 4) fun n => float (.ofSingle n)
  | 0xCB => after (takeNumber 8) fun n => float ⟨UInt64.ofNat n⟩
  | 0xCC => after (takeNumber 1) fun n => int n
  | 0xCD => after (takeNumber 2) fun n => int n
  | 0xCE => after (takeNumber 4) fun n => int n
  | 0xCF => after (takeNumber 8) fun n => int n
  | 0xD0 => after (takeSigned 1) int
  | 0xD1 => after (takeSigned 2) int
  | 0xD2 => after (takeSigned 4) int
  | 0xD3 => after (takeSigned 8) int
  | 0xD4 => after (takeSigned 1) (ext · 1)
  | 0xD5 => after (takeSigned 1) (ext · 2)
  | 0xD6 => after (takeSigned 1) (ext · 4)
  | 0xD7 => after (takeSigned 1) (ext · 8)
  | 0xD8 => after (takeSigned 1) (ext · 16)
  | 0xD9 => after (takeNumber 1) str
  | 0xDA => after (takeNumber 2) str
  | 0xDB => after (takeNumber 4) str
  | 0xDC => after (takeNumber 2) array
  | 0xDD => after (takeNumber 4) array
  | 0xDE => after (takeNumber 2) map
  | 0xDF => after (takeNumber 4) map
  | _ => fun _ => .error .reservedByte

/-- The head at the start of some bytes. -/
def read : Reader Head
  | [] => .error .truncated
  | b :: rest =>
    let n := b.toNat
    if n < 0x80 then .ok (int n, rest)
    else if n < 0x90 then .ok (map (n - 0x80), rest)
    else if n < 0xA0 then .ok (array (n - 0x90), rest)
    else if n < 0xC0 then .ok (str (n - 0xA0), rest)
    else if n < 0xE0 then afterMark b rest
    else .ok (int ((n : Int) - 0x100), rest)

end Head

end Provenance.MessagePack
