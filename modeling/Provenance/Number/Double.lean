import Provenance.Number.Rounding

/-!
# Doubles

A double is its 64 bits: a sign, eleven bits of exponent and 52 bits of fraction. All arithmetic
goes through exact natural numbers and one rounding.

* `Double.magnitude` — what the bits stand for: infinity, not a number, or `m · 2 ^ e`.
* `Double.ofRatio` — the double nearest to a quotient, ties to even, infinity past the range.
* `Double.ofInt?`, `Double.times`, `Double.ofDecimal` — integers, products with a natural number and
  decimal numerals, each rounded once.
* `Double.ofSingle` — the double of the same value as 32 bits of single precision.
-/

namespace Provenance

/-- A double, given by its bits. -/
structure Double where
  /-- Sign, exponent and fraction. -/
  bits : UInt64
  deriving DecidableEq, Repr

namespace Double

/-- What the bits below the sign stand for. -/
inductive Magnitude where
  /-- The number `m · 2 ^ e`. -/
  | finite (m : Nat) (e : Int)
  /-- Infinity. -/
  | infinite
  /-- Not a number. -/
  | notANumber
  deriving DecidableEq, Repr

/-- The sign bit. -/
def signBit : Nat := 0x8000000000000000

/-- The lowest bit of the exponent, which is also the leading bit that a fraction leaves out. -/
def leadingBit : Nat := 0x10000000000000

/-- Whether the sign bit is set. -/
def isNegative (d : Double) : Bool := signBit ≤ d.bits.toNat

/-- What the bits below the sign stand for. -/
def magnitude (d : Double) : Magnitude :=
  let below : Nat := d.bits.toNat % signBit
  let exponent : Nat := below / leadingBit
  let fraction := below % leadingBit
  if exponent = 0x7FF then
    if fraction = 0 then .infinite else .notANumber
  else if exponent = 0 then .finite fraction (-1074)
  else .finite (fraction + leadingBit) (exponent - 1075)

/-- The bits of infinity. -/
def infinityBits : Nat := 0x7FF * leadingBit

/-- The double of a sign and the bits below it. -/
def ofSign (negative : Bool) (below : Nat) : Double :=
  ⟨UInt64.ofNat (below + if negative then signBit else 0)⟩

/-- Zero. -/
def zero (negative : Bool) : Double := ofSign negative 0

/-- Infinity. -/
def infinity (negative : Bool) : Double := ofSign negative infinityBits

/-- The quiet value that is not a number. -/
def nan (negative : Bool) : Double := ofSign negative (infinityBits + leadingBit / 2)

/-- The exponent `k` with `2 ^ k ≤ num / den < 2 ^ (k + 1)`, for positive numbers. -/
def binaryExponent (num den : Nat) : Int :=
  let k : Int := (Nat.log2 num : Int) - Nat.log2 den
  if den <<< k.toNat ≤ num <<< (-k).toNat then k else k - 1

/-- The double nearest to `num / den` with a sign; a tie goes to the even one, and what lies past
the greatest double by half a unit or more becomes infinity. -/
def ofRatio (negative : Bool) (num den : Nat) : Double :=
  if num = 0 then zero negative
  else
    -- one unit in the last place is `2 ^ step`
    let step := max (binaryExponent num den - 52) (-1074)
    let m := roundDiv (num <<< (-step).toNat) (den <<< step.toNat)
    -- the implicit bit of `m` adds one to the exponent field
    ofSign negative (min ((step + 1074).toNat * leadingBit + m) infinityBits)

/-- The double nearest to `m · 2 ^ e`. -/
def ofScaled (negative : Bool) (m : Nat) (e : Int) : Double :=
  ofRatio negative (m <<< e.toNat) (1 <<< (-e).toNat)

/-- The double nearest to an integer, unless it is past the range. -/
def ofInt? (n : Int) : Option Double :=
  let d := ofRatio (n < 0) n.natAbs 1
  if d.magnitude = .infinite then none else some d

/-- The product with a natural number. -/
def times (d : Double) (n : Nat) : Double :=
  match d.magnitude with
  | .finite m e => ofScaled d.isNegative (m * n) e
  | _ => d

/-- The double nearest to `n · 10 ^ e`. Exponents far outside the range are decided by the number of
digits alone. -/
def ofDecimal (negative : Bool) (n : Nat) (e : Int) : Double :=
  if n = 0 then zero negative
  else
    let digits : Int := (Nat.toDigits 10 n).length
    if 310 < digits + e then infinity negative
    else if digits + e < -330 then zero negative
    else ofRatio negative (n * Nat.pow 10 e.toNat) (Nat.pow 10 (-e).toNat)

/-- The double of the value that 32 bits of single precision stand for. -/
def ofSingle (bits : Nat) : Double :=
  let negative : Bool := 0x80000000 ≤ bits
  let exponent : Nat := bits / 0x800000 % 0x100
  let fraction := bits % 0x800000
  if exponent = 0xFF then
    if fraction = 0 then infinity negative else nan negative
  else if exponent = 0 then ofScaled negative fraction (-149)
  else ofScaled negative (fraction + 0x800000) (exponent - 150)

/-- Whether the double is the number one. -/
def isOne (d : Double) : Bool := d.bits == 0x3FF0000000000000

end Double

end Provenance
