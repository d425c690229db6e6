import Provenance.Bytes

/-!
# ASCII text in binary data

* `asciiText` — one character for each byte; a byte above 7F becomes U+FFFD.
* `Bytes.cString` — the text from an offset up to the first NUL or a bound.
* `fixedName` — the text of a name field of fixed size.
* `lower` — upper-case ASCII letters made lower-case.
-/

namespace Provenance

/-- The character of a byte. -/
def asciiChar (b : UInt8) : Char :=
  if b < 0x80 then Char.ofNat b.toNat else '\uFFFD'

/-- The text of a byte string, one character for each byte. -/
def asciiText (bs : List UInt8) : String :=
  String.ofList (bs.map asciiChar)

/-- The text of a name field: it ends at the first NUL, or with the field. -/
def fixedName (field : List UInt8) : String :=
  asciiText (field.takeWhile (· ≠ 0))

namespace Bytes

/-- The first of `count` positions from `start` on that holds a NUL, or the position after them. -/
def nulFrom (data : Bytes) : (count start : Nat) → Nat
  | 0, start => start
  | count + 1, start => if data[start]? = some 0 then start else data.nulFrom count (start + 1)

/-- The bytes of the string at an offset: it ends at the first NUL, at `limit`, or with the data. -/
def cStringBytes (data : Bytes) (offset : Int) (limit : Option Int) : List UInt8 :=
  let stop := match limit with
    | none => (data.size : Int)
    | some l => min l data.size
  if offset < 0 ∨ stop ≤ offset then []
  else (data.extract offset.toNat (data.nulFrom (stop - offset).toNat offset.toNat)).toList

/-- The string at an offset; it is empty for an offset outside the data. -/
def cString (data : Bytes) (offset : Int) (limit : Option Int) : String :=
  asciiText (data.cStringBytes offset limit)

end Bytes

namespace Text

/-- A text with its upper-case ASCII letters made lower-case. -/
def lower (text : String) : String :=
  String.ofList (text.toList.map Char.toLower)

end Text

end Provenance
