import Provenance.Text.Blank

/-!
# Integers in text

* `hex`, `upperHex` — hexadecimal digits, filled up with zeros to a least width.
* `signedHex` — an integer as `0x…`, with the sign in front.
* `digitsValue?` — the value of decimal digits, with single underscores between them allowed.
* `readInt?` — an integer from text: blanks around it and a sign are allowed.
-/

namespace Provenance.Text

/-- Fills a text up with zeros on the left to a least width. -/
def zeroPad (width : Nat) (digits : List Char) : String :=
  String.ofList (List.replicate (width - digits.length) '0' ++ digits)

/-- A number in lower-case hexadecimal, with at least `width` digits. -/
def hex (width n : Nat) : String :=
  zeroPad width (Nat.toDigits 16 n)

/-- A number in upper-case hexadecimal, with at least `width` digits. -/
def upperHex (width n : Nat) : String :=
  zeroPad width ((Nat.toDigits 16 n).map Char.toUpper)

/-- An integer in hexadecimal with the mark `0x`, the sign before the mark. -/
def signedHex (n : Int) : String :=
  (if n < 0 then "-0x" else "0x") ++ hex 0 n.natAbs

/-- Drops the underscores that stand between two digits; any other underscore is refused. The flag
says whether a digit stands before the text. -/
def dropSeparators? (afterDigit : Bool) : List Char → Option (List Char)
  | [] => some []
  | '_' :: d :: rest =>
    if afterDigit && d.isDigit then (dropSeparators? true rest).map (d :: ·) else none
  | c :: rest =>
    if c == '_' then none else (dropSeparators? c.isDigit rest).map (c :: ·)

/-- The value of a list of decimal digits, continuing from `n`. -/
def digitsValue? (n : Nat) : List Char → Option Nat
  | [] => some n
  | d :: rest => if d.isDigit then digitsValue? (10 * n + (d.toNat - 48)) rest else none

/-- The value of decimal digits with underscores between them; there is at least one digit. -/
def readNat? (cs : List Char) : Option Nat :=
  match dropSeparators? false cs with
  | none | some [] => none
  | some digits => digitsValue? 0 digits

/-- The integer that a text spells. -/
def readInt? (text : List Char) : Option Int :=
  match strip isAsciiBlank text with
  | '-' :: digits => (readNat? digits).map fun n => -(n : Int)
  | '+' :: digits => (readNat? digits).map Int.ofNat
  | digits => (readNat? digits).map Int.ofNat

end Provenance.Text
