import Provenance.Bytes
import Provenance.Collector

/-!
# Language signatures

Strings that compilers and runtimes leave in a program, whatever its container format.

* `ByteClass`, `Pattern` — a sequence of bytes in which some may be any decimal digit.
* `Pattern.occursIn` — whether a pattern stands anywhere in a byte string.
* `signatures` — the patterns of each language, in the order in which languages are reported.
* `matchingLanguages` — the languages of which some pattern occurs.
* `inspectSignatures` — one signal for each such language, from the first 65536 bytes of a file.
* `collectSignatures` — the same signals as they are written to a collector.
-/

namespace Provenance

/-- The bytes that one place of a pattern allows. -/
inductive ByteClass where
  /-- One byte only. -/
  | exactly (b : UInt8)
  /-- A decimal digit. -/
  | digit
  deriving DecidableEq, Repr

/-- Whether a byte is allowed. -/
def ByteClass.allows : ByteClass → UInt8 → Bool
  | exactly b, found => b == found
  | digit, found => 0x30 ≤ found && found ≤ 0x39

/-- A sequence of places. -/
abbrev Pattern := List ByteClass

namespace Pattern

/-- The pattern of a text. -/
def ofText (text : String) : Pattern := text.toUTF8.data.toList.map .exactly

/-- Whether a byte string starts with a pattern. -/
def startsAt : Pattern → List UInt8 → Bool
  | [], _ => true
  | _ :: _, [] => false
  | c :: rest, b :: bs => c.allows b && startsAt rest bs

end Pattern

/-- Whether some of the patterns stands anywhere in a byte string. -/
def anyOccurs (patterns : List Pattern) : List UInt8 → Bool
  | [] => patterns.any (·.startsAt [])
  | b :: bs => patterns.any (·.startsAt (b :: bs)) || anyOccurs patterns bs

/-- The patterns of each language. -/
def signatures : List (String × List Pattern) := [
  ("Go", ["runtime.", "goitab", "gotype", "gofunc", "gostring", "gointerface"].map Pattern.ofText),
  ("Rust", ["rust_panic", "rust_begin_unwind", "core::"].map Pattern.ofText),
  ("C++", [".cxx_", "std::", "__cxa_", "typeinfo for"].map Pattern.ofText),
  ("Python", ["PyImport_", "PyEval_"].map Pattern.ofText
    ++ [Pattern.ofText "Python" ++ [.digit] ++ Pattern.ofText "." ++ [.digit]]),
  ("Java", ["java/", "javax/"].map Pattern.ofText),
  ("Node", ["node.js", "require("].map Pattern.ofText)]

/-- The languages of which some pattern occurs in a byte string. -/
def matchingLanguages (bs : List UInt8) : List String :=
  (signatures.filter fun (_, patterns) => anyOccurs patterns bs).map (·.1)

/-- How many bytes from the start of a file are searched. -/
def scanWindow : Nat := 65536

/-- One signal for each language of which some pattern occurs at the start of a file. -/
def inspectSignatures (data : Bytes) : Inspection :=
  let head : Bytes := data.extract 0 scanWindow
  .concat ((matchingLanguages head.toList).map fun (language : String) =>
    ⟨.signal [language] ("Found " ++ language ++ " patterns in binary"),
      ["Pattern hit for " ++ language ++ " in first " ++ toString head.size ++ " bytes"]⟩)

/-- Collect the signatures at the start of a file. -/
def collectSignatures (file : Bytes) : Collector :=
  (matchingLanguages (file.extract 0 scanWindow).toList).forM fun (language : String) =>
    Collector.addLanguage language ("Found " ++ language ++ " patterns in binary")

end Provenance
