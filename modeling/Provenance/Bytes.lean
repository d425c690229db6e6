import Provenance.Bytes.Misread

/-!
# Byte strings

The content of a file, and the two ways of reading it at a position. Positions count from the start,
or back from the end when they are negative.

* `Bytes.window` — the bytes of a window that lies wholly in the data.
* `Bytes.slice` — the part of a range that is present; a bound outside the data moves to its edge.
-/

namespace Provenance

/-- The content of a file. -/
abbrev Bytes := Array UInt8

namespace Bytes

/-- The position that an offset names: it counts from the start, a negative one from the end. -/
def position (data : Bytes) (offset : Int) : Int :=
  if offset < 0 then offset + data.size else offset

/-- The `size` bytes at an offset, if all of them lie in the data. -/
def window (data : Bytes) (offset : Int) (size : Nat) : Except Misread (List UInt8) :=
  let start := data.position offset
  if 0 ≤ start ∧ start + size ≤ data.size then
    .ok (data.extract start.toNat (start.toNat + size)).toList
  else
    .error (.of size offset data.size)

/-- The bytes from `start` up to `stop` that are present. -/
def slice (data : Bytes) (start stop : Int) : Bytes :=
  data.extract (data.position start).toNat (data.position stop).toNat

/-- Whether the data begin with the given bytes. -/
def startsWith (data : Bytes) (head : List UInt8) : Bool :=
  (data.extract 0 head.length).toList == head

theorem position_natCast (data : Bytes) (n : Nat) : data.position n = n := by
  unfold position
  rw [if_neg (by omega)]

/-- Bounds that count from the start are the ends of the slice. -/
theorem slice_natCast (data : Bytes) (start stop : Nat) :
    data.slice start stop = data.extract start stop := by
  simp only [slice, position_natCast, Int.toNat_natCast]

/-- A window at a non-negative offset exists exactly when it ends within the data. -/
theorem window_natCast (data : Bytes) (n size : Nat) :
    data.window n size =
      if n + size ≤ data.size then .ok (data.extract n (n + size)).toList
      else .error (.of size n data.size) := by
  simp only [window, position_natCast, Int.toNat_natCast]
  by_cases h : n + size ≤ data.size
  · rw [if_pos h, if_pos ⟨by omega, by omega⟩]
  · rw [if_neg h, if_neg (by omega)]

/-- A window has the size that was asked for. -/
theorem length_of_window {data : Bytes} {offset : Int} {size : Nat} {bs : List UInt8}
    (h : data.window offset size = .ok bs) : bs.length = size := by
  simp only [window] at h
  split at h
  · cases h
    simp only [Array.length_toList, Array.size_extract]
    omega
  · cases h

/-- The front of a stretch of the data. -/
theorem take_extract (data : Bytes) (n front back : Nat) :
    (data.extract n (n + (front + back))).toList.take front
      = (data.extract n (n + front)).toList := by
  simp only [Array.toList_extract, List.extract_eq_take_drop, List.take_take]
  congr 1
  omega

/-- The back of a stretch of the data. -/
theorem drop_extract (data : Bytes) (n front back : Nat) :
    (data.extract n (n + (front + back))).toList.drop front
      = (data.extract (n + front) (n + front + back)).toList := by
  simp only [Array.toList_extract, List.extract_eq_take_drop, List.drop_take, List.drop_drop]
  congr 1
  omega

end Bytes

end Provenance
