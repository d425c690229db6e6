/-!
# Texts

Text from outside is a sequence of code points. Most of them are characters, but a text may also
hold half of a surrogate pair on its own: a code from D800 to DFFF, which is no character and which
UTF-8 has no bytes for. Every string is a text, and a text without halves is a string.

* `CodePoint` — a character, or half of a surrogate pair; `CodePoint.code` is its number.
* `Text` — the code points of a text, in order.
* `Text.ofString`, `Text.toString?` — the text of a string, and the string of a text without halves;
  `toString?_eq_some_iff` says that each undoes the other.
* `Text.isWhole` — whether a text holds no halves; `Text.shown` is a string in any case.
* `Text.intercalate` — texts with a separator between them.
-/

namespace Provenance

/-- A character, or half of a surrogate pair on its own. -/
inductive CodePoint where
  /-- A character. -/
  | char (c : Char)
  /-- Half of a surrogate pair, by its place among the 2048 halves. -/
  | half (place : Fin 2048)
  deriving DecidableEq, Repr

namespace CodePoint

/-- The code of the first half. -/
def firstHalf : Nat := 0xD800

/-- The code of a code point. -/
def code : CodePoint → Nat
  | char c => c.toNat
  | half place => firstHalf + place.val

/-- Whether a code point is a character with a property. -/
def holds (p : Char → Bool) : CodePoint → Bool
  | char c => p c
  | half _ => false

/-- The character that a code point is, if it is one. -/
def toChar? : CodePoint → Option Char
  | char c => some c
  | half _ => none

/-- Whether a code point is one of the halves that stand for the bytes from 80 to FF, where a file
has a name that is not in UTF-8. -/
def isStrayByte : CodePoint → Bool
  | char _ => false
  | half place => 0x480 ≤ place.val && place.val ≤ 0x4FF

end CodePoint

/-- The code points of a text. -/
abbrev Text := List CodePoint

namespace Text

/-- The text of a string. -/
def ofString (s : String) : Text := s.toList.map .char

instance : Coe String Text := ⟨ofString⟩

/-- Whether a text holds no halves. -/
def isWhole (text : Text) : Bool := text.all (·.holds fun _ => true)

/-- The string that a text is, if it holds no halves. -/
def toString? (text : Text) : Option String :=
  if isWhole text then some (String.ofList (text.filterMap CodePoint.toChar?)) else none

/-- A text as a string, where halves give way to U+FFFD. -/
def shown (text : Text) : String :=
  String.ofList (text.map fun c => c.toChar?.getD '\uFFFD')

/-- Texts one after the other, with a separator between them. -/
def intercalate (separator : Text) (parts : List Text) : Text :=
  List.intercalate separator parts

theorem ofString_append (s t : String) : ofString (s ++ t) = ofString s ++ ofString t := by
  simp [ofString]

@[simp] theorem isWhole_ofString (s : String) : isWhole (ofString s) = true := by
  simp [isWhole, ofString, CodePoint.holds]

/-- A string is got back from its text. -/
@[simp] theorem toString?_ofString (s : String) : toString? (ofString s) = some s := by
  rw [toString?, if_pos (isWhole_ofString s), ofString, List.filterMap_map]
  have hsome : CodePoint.toChar? ∘ CodePoint.char = some := rfl
  rw [hsome, List.filterMap_some, String.ofList_toList]

/-- A text without halves consists of its characters. -/
theorem map_char_filterMap {text : Text} (h : isWhole text = true) :
    (text.filterMap CodePoint.toChar?).map .char = text := by
  induction text with
  | nil => rfl
  | cons c rest ih =>
    rw [isWhole, List.all_cons, Bool.and_eq_true] at h
    cases c with
    | half place => cases h.1
    | char c => simpa [CodePoint.toChar?] using ih h.2

/-- The texts that are strings are the texts of strings. -/
theorem toString?_eq_some_iff {text : Text} {s : String} :
    toString? text = some s ↔ text = ofString s := by
  constructor
  · intro h
    rw [toString?] at h
    split at h
    · next hwhole =>
      cases h
      rw [ofString, String.toList_ofList, map_char_filterMap hwhole]
    · cases h
  · rintro rfl
    exact toString?_ofString s

theorem ofString_injective {s t : String} (h : ofString s = ofString t) : s = t := by
  have hs : toString? (ofString t) = some s := toString?_eq_some_iff.mpr h.symm
  simpa using hs.symm

end Text

end Provenance
