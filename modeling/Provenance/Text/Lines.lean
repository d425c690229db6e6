import Provenance.Text

/-!
# Lines

A text is split at every character that ends a line: line feed, vertical tab, form feed, carriage
return, the separators U+001C to U+001E, next line, and the line and paragraph separators. A
carriage return and a line feed together end one line, and no empty line follows the last line end.
-/

namespace Provenance.Text

/-- Whether a code point ends a line. -/
def endsLine (c : CodePoint) : Bool :=
  [0x0A, 0x0B, 0x0C, 0x0D, 0x1C, 0x1D, 0x1E, 0x85, 0x2028, 0x2029].contains c.code

/-- The lines of a text, where `line` holds what the first has already, in reverse. -/
def linesFrom (line : Text) : Text → List Text
  | [] => if line.isEmpty then [] else [line.reverse]
  | .char '\r' :: .char '\n' :: rest => line.reverse :: linesFrom [] rest
  | c :: rest =>
    if endsLine c then line.reverse :: linesFrom [] rest else linesFrom (c :: line) rest

/-- The lines of a text, without their ends. -/
def lines (text : Text) : List Text := linesFrom [] text

end Provenance.Text
