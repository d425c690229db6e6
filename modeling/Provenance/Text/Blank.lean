/-!
# Blank characters

The sets of characters that are skipped around a number or a name, and stripping them.

* `isAsciiBlank` — space, tab, line feed, vertical tab, form feed, carriage return.
* `isWhiteSpace` — the 25 characters of Unicode's `White_Space` property.
* `isBlank` — these and the four information separators U+001C to U+001F.
* `strip` — a text without the blank characters at its two ends.
-/

namespace Provenance.Text

/-- The six blank characters of ASCII. -/
def isAsciiBlank (c : Char) : Bool :=
  c == ' ' || (9 ≤ c.toNat && c.toNat ≤ 13)

/-- The characters with the property `White_Space`. -/
def isWhiteSpace (c : Char) : Bool :=
  isAsciiBlank c || [0x85, 0xA0, 0x1680, 0x2028, 0x2029, 0x202F, 0x205F, 0x3000].contains c.toNat ||
    (0x2000 ≤ c.toNat && c.toNat ≤ 0x200A)

/-- White space and the information separators. -/
def isBlank (c : Char) : Bool :=
  isWhiteSpace c || (0x1C ≤ c.toNat && c.toNat ≤ 0x1F)

/-- Drops the elements with a property from both ends. -/
def strip {α : Type} (p : α → Bool) (xs : List α) : List α :=
  ((xs.dropWhile p).reverse.dropWhile p).reverse

end Provenance.Text
