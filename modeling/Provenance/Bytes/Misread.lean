/-!
# Failed reads

Why bytes cannot be read at an offset of a file. An offset counts from the start of the file, or
back from its end when it is negative, and it has to be a signed 64-bit integer.

* `Misread.of` — the cause, for a read that does not lie in the data.
* `Misread.message` — its wording.
-/

namespace Provenance

/-- Why bytes cannot be read at an offset. -/
inductive Misread where
  /-- The offset is no signed 64-bit integer. -/
  | unaddressable
  /-- The read goes past the end of the data. -/
  | pastEnd (width : Nat) (offset : Int) (size : Nat)
  /-- The read starts before the end of the data and goes on behind it. -/
  | acrossEnd (width : Nat) (offset : Int)
  /-- The offset goes back beyond the start of the data. -/
  | beforeStart (offset : Int) (size : Nat)
  deriving DecidableEq, Repr

namespace Misread

/-- The offsets that can be named. -/
def IsAddress (offset : Int) : Prop :=
  -0x8000000000000000 ≤ offset ∧ offset ≤ 0x7FFFFFFFFFFFFFFF

instance (offset : Int) : Decidable (IsAddress offset) := by
  unfold IsAddress
  infer_instance

/-- Why `width` bytes at an offset do not lie in `size` bytes of data. -/
def of (width : Nat) (offset : Int) (size : Nat) : Misread :=
  if ¬ IsAddress offset then unaddressable
  else if 0 ≤ offset then pastEnd width offset size
  else if 0 < offset + width then acrossEnd width offset
  else beforeStart offset size

/-- The wording of a failure. -/
def message : Misread → String
  | unaddressable => "offset too large"
  | pastEnd width offset size =>
    "unpack_from requires a buffer of at least " ++ toString (offset + width)
      ++ " bytes for unpacking " ++ toString width ++ " bytes at offset " ++ toString offset
      ++ " (actual buffer size is " ++ toString size ++ ")"
  | acrossEnd width offset =>
    "not enough data to unpack " ++ toString width ++ " bytes at offset " ++ toString offset
  | beforeStart offset size =>
    "offset " ++ toString offset ++ " out of range for " ++ toString size ++ "-byte buffer"

end Misread

end Provenance
