import Provenance.Number.Double
import Provenance.Text.Digit
import Provenance.Text.Numeral

/-!
# Doubles from text

A numeral is a sign, digits with at most one point among them and at least one digit, and an
exponent with its own sign. Single underscores may stand between two digits. The words `inf`,
`infinity` and `nan` are numerals too, in any case. Blanks around a numeral are skipped.

* `Double.ofNumeral?` — the double of a numeral in ASCII.
* `Double.ofText?` — the same where digits and white space may come from any script.
* `Double.ofAscii?` — the same over bytes.
-/

namespace Provenance.Double

open Text

/-- Splits a sign from a numeral; the answer says whether it is a minus. -/
def splitSign : List Char → Bool × List Char
  | '-' :: rest => (true, rest)
  | '+' :: rest => (false, rest)
  | cs => (false, cs)

/-- The exponent of a numeral, from the mark `e` on; no mark means zero. -/
def readExponent? : List Char → Option Int
  | [] => some 0
  | mark :: rest =>
    if mark == 'e' || mark == 'E' then
      let (negative, digits) := splitSign rest
      if digits.isEmpty then none
      else (digitsValue? 0 digits).map fun n => if negative then -(n : Int) else n
    else none

/-- The double of digits, a point and an exponent. -/
def readDigits? (negative : Bool) (cs : List Char) : Option Double :=
  let whole := cs.takeWhile Char.isDigit
  let afterWhole := cs.dropWhile Char.isDigit
  let (fraction, tail) := match afterWhole with
    | '.' :: rest => (rest.takeWhile Char.isDigit, rest.dropWhile Char.isDigit)
    | _ => ([], afterWhole)
  if whole.isEmpty && fraction.isEmpty then none
  else do
    let n ← digitsValue? 0 (whole ++ fraction)
    let e ← readExponent? tail
    return ofDecimal negative n (e - fraction.length)

/-- The double of a numeral without blanks around it. -/
def ofNumeral? (cs : List Char) : Option Double :=
  (dropSeparators? false cs).bind fun cs =>
    let (negative, body) := splitSign cs
    let word := String.ofList (body.map Char.toLower)
    if word = "inf" ∨ word = "infinity" then some (infinity negative)
    else if word = "nan" then some (nan negative)
    else readDigits? negative body

/-- A character with decimal digits of any script made ASCII. -/
def asciiDigit (c : Char) : Char :=
  match decimalValue? c with
  | some v => Char.ofNat (48 + v)
  | none => c

/-- The double that a text spells. -/
def ofText? (text : String) : Option Double :=
  ofNumeral? ((strip isWhiteSpace text.toList).map asciiDigit)

/-- The double that a byte string spells. -/
def ofAscii? (bs : List UInt8) : Option Double :=
  ofNumeral? (strip isAsciiBlank (bs.map fun b => Char.ofNat b.toNat))

end Provenance.Double
