import Provenance.Text
import Provenance.Text.Numeral
import Provenance.Text.Printable

/-!
# Quoted text

Text and byte strings in quotes, on one line, with everything that would not show escaped.

* `quoteMark` — a quote is single, unless the content holds a single quote and no double one.
* `quote` — a text: the quote and the backslash take a backslash, tab, line feed and carriage return
  have letters, and every other code point that is not printable is written as a number.
* `quoteBytes` — a byte string, marked `b`: the same over bytes, where all but the printable ASCII
  characters are written as numbers.
-/

namespace Provenance.Text

/-- The quote that is put around a content. -/
def quoteMark (content : Text) : Char :=
  if .char '\'' ∈ content ∧ .char '"' ∉ content then '"' else '\''

/-- A code as a hexadecimal escape of the least width that holds it. -/
def numberEscape (code : Nat) : String :=
  if code ≤ 0xFF then "\\x" ++ hex 2 code
  else if code ≤ 0xFFFF then "\\u" ++ hex 4 code
  else "\\U" ++ hex 8 code

/-- A code point inside quotes; the characters that `printed` refuses are written as numbers, and so
are all halves. -/
def escape (mark : Char) (printed : Char → Bool) : CodePoint → String
  | .half place => numberEscape (CodePoint.half place).code
  | .char c =>
    if c == mark || c == '\\' then "\\" ++ c.toString
    else if c == '\t' then "\\t"
    else if c == '\n' then "\\n"
    else if c == '\r' then "\\r"
    else if printed c then c.toString
    else numberEscape c.toNat

/-- A content in its quotes. -/
def enclose (printed : Char → Bool) (content : Text) : String :=
  let mark := quoteMark content
  mark.toString ++ String.join (content.map (escape mark printed)) ++ mark.toString

/-- A text in quotes. -/
def quote (text : Text) : String := enclose isPrintable text

/-- A byte string in quotes. -/
def quoteBytes (bs : List UInt8) : String :=
  "b" ++ enclose (fun c => 0x20 ≤ c.toNat ∧ c.toNat < 0x7F) 
    (bs.map fun b => .char (Char.ofNat b.toNat))

end Provenance.Text
