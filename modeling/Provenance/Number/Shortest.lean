import Provenance.Number.Double

/-!
# Doubles in text

* `Double.shortest` — the fewest decimal digits that read back as the same double, and of those the
  nearest to it.
* `Double.text` — those digits written out: positionally for numbers from 10⁻⁴ up to 10¹⁶, with an
  exponent of two digits or more otherwise, and always with a fraction or an exponent.
* `Double.percent` — a share as whole per cent: the double times 100, rounded to a double, then to
  an integer with ties to even.
-/

namespace Provenance.Double

/-- The decimal exponent `t` with `10 ^ t ≤ m · 2 ^ e < 10 ^ (t + 1)`, for positive `m`. -/
def decimalExponent (m : Nat) (e : Int) : Int :=
  let guess := ((Nat.log2 m : Int) + e) * 30103 / 100000
  let num := m <<< e.toNat
  let den : Nat := 1 <<< (-e).toNat
  let reaches (t : Int) : Bool := den * Nat.pow 10 t.toNat ≤ num * Nat.pow 10 (-t).toNat
  if reaches (guess + 1) then guess + 1 else if reaches guess then guess else guess - 1

/-- The multiple of `10 ^ t` nearest to `m · 2 ^ e` among those that read back as it, if any; the
answer is the factor. -/
def onGrid? (m : Nat) (e t : Int) : Option Nat :=
  -- everything is a multiple of a quarter of `2 ^ e · 10 ^ t` scaled to whole numbers
  let scale := Nat.pow 10 (-t).toNat <<< e.toNat
  let unit := 4 * Nat.pow 10 t.toNat <<< (-e).toNat
  let value := 4 * m * scale
  -- below a power of two the neighbouring double is half as far away
  let below := if m = leadingBit ∧ -1074 < e then 1 else 2
  let low := (4 * m - below) * scale
  let high := (4 * m + 2) * scale
  let inside (k : Nat) : Bool :=
    if m % 2 = 0 then low ≤ k * unit ∧ k * unit ≤ high else low < k * unit ∧ k * unit < high
  let k := value / unit
  match inside k, inside (k + 1) with
  | true, true => some (roundDiv value unit)
  | true, false => some k
  | false, true => some (k + 1)
  | false, false => none

/-- The decimal digits and the decimal exponent of their last one: the first of the grids of 1, 2, …
17 digits that holds a point which reads back as `m · 2 ^ e`. -/
def shortest (m : Nat) (e : Int) : Nat × Int :=
  let top := decimalExponent m e
  let grids := (List.range 17).map fun (n : Nat) => top - n
  (grids.findSome? fun t => (onGrid? m e t).map (·, t)).getD (0, 0)

/-- Drops the zeros at the end of a list of digits. -/
def dropLastZeros (digits : List Char) : List Char :=
  (digits.reverse.dropWhile (· == '0')).reverse

/-- Digits with the point after the first `point` of them, in positional notation. -/
def positional (digits : List Char) (point : Int) : List Char :=
  if point ≤ 0 then '0' :: '.' :: (List.replicate (-point).toNat '0' ++ digits)
  else if digits.length ≤ point.toNat then
    digits ++ List.replicate (point.toNat - digits.length) '0' ++ ['.', '0']
  else digits.take point.toNat ++ '.' :: digits.drop point.toNat

/-- Digits with the point after the first of them, and an exponent. -/
def scientific (digits : List Char) (exponent : Int) : List Char :=
  let fraction := digits.drop 1
  let power := Nat.toDigits 10 exponent.natAbs
  digits.take 1 ++ (if fraction.isEmpty then [] else '.' :: fraction) ++
    ['e', if exponent < 0 then '-' else '+'] ++ List.replicate (2 - power.length) '0' ++ power

/-- The text of a double. -/
def text (d : Double) : String :=
  let sign := if d.isNegative then "-" else ""
  match d.magnitude with
  | .notANumber => "nan"
  | .infinite => sign ++ "inf"
  | .finite m e =>
    if m = 0 then sign ++ "0.0"
    else
      let (n, t) := shortest m e
      let written := Nat.toDigits 10 n
      let point : Int := written.length + t
      let digits := dropLastZeros written
      sign ++ String.ofList
        (if -4 < point ∧ point ≤ 16 then positional digits point else scientific digits (point - 1))

/-- A share as whole per cent. -/
def percent (d : Double) : String :=
  let share := d.times 100
  let sign := if d.isNegative then "-" else ""
  match share.magnitude with
  | .notANumber => "nan%"
  | .infinite => sign ++ "inf%"
  | .finite m e => sign ++ toString (roundDiv (m <<< e.toNat) (1 <<< (-e).toNat)) ++ "%"

end Provenance.Double
