import Mathlib.Computability.RegularExpressions
import Provenance.Proofs.Detection
import Provenance.Proofs.Walk

/-!
# Where signatures are found

What the programs of a language carry is told here by a regular expression. The patterns that are
run have all alternatives written out and are looked for at one position after the other. They stand
for the words that match the expression, and a language is found exactly when one of its words
stands somewhere in the data: at the start, at the end or in between.

* `Signature.literal`, `Signature.anyOf`, `Signature.anyDigit` — what the expressions consist of.
* `Signature.expressions` — the expression of each language.
* `Pattern.words`, `wordsOf` — the words that a pattern stands for, and those of several patterns.
* `anyOccurs_iff` — what is looked for at every position is found where it stands.
* `wordsOf_signatures` — patterns and expressions stand for the same words.

Main result:

* `languages_found_by_their_words` — which languages are found, in which order, and in which part of
  a file.
-/

namespace Provenance

/-! ## Expressions -/

namespace Signature

/-- What matches a text and nothing else. -/
def literal (text : String) : RegularExpression UInt8 :=
  text.toUTF8.data.toList.foldr (fun b rest => .char b * rest) 1

/-- What matches one of some expressions. -/
def anyOf (choices : List (RegularExpression UInt8)) : RegularExpression UInt8 :=
  choices.foldr (· + ·) 0

/-- What matches a decimal digit. -/
def anyDigit : RegularExpression UInt8 := anyOf ("0123456789".toUTF8.data.toList.map .char)

/-- The expression of each language, in the order in which languages are reported. -/
def expressions : List (String × RegularExpression UInt8) := [
  ("Go", literal "runtime."
    + literal "go" * anyOf (["itab", "type", "func", "string", "interface"].map literal)),
  ("Rust", anyOf (["rust_panic", "rust_begin_unwind", "core::"].map literal)),
  ("C++", anyOf ([".cxx_", "std::", "__cxa_", "typeinfo for"].map literal)),
  ("Python", anyOf (["PyImport_", "PyEval_"].map literal)
    + literal "Python" * anyDigit * literal "." * anyDigit),
  ("Java", anyOf (["java/", "javax/"].map literal)),
  ("Node", anyOf (["node.js", "require("].map literal))]

end Signature

open Signature

/-!
## Words of patterns

A pattern is a list of classes of bytes, and its words have a byte of each class. The words of all
patterns of a language are those of its expression.
-/

/-- The words that a pattern stands for: in each place a byte that the place allows. -/
def Pattern.words (p : Pattern) : Language UInt8 :=
  {word | List.Forall₂ (fun c b => c.allows b = true) p word}

/-- The words that some of the patterns stand for. -/
def wordsOf (patterns : List Pattern) : Language UInt8 :=
  {word | ∃ p ∈ patterns, word ∈ p.words}

namespace Pattern

theorem words_nil : words [] = 1 := by
  ext word
  exact List.forall₂_nil_left_iff

/-- A word of a pattern is a byte that its first place allows, and a word of the rest. -/
theorem words_cons (c : ByteClass) (p : Pattern) : words (c :: p) = words [c] * words p := by
  ext word
  rw [Language.mem_mul]
  constructor
  · intro h
    obtain ⟨b, rest, hb, hrest, rfl⟩ := List.forall₂_cons_left_iff.mp h
    exact ⟨[b], .cons hb .nil, rest, hrest, rfl⟩
  · rintro ⟨first, hfirst, rest, hrest, rfl⟩
    obtain ⟨b, none, hb, hnone, rfl⟩ := List.forall₂_cons_left_iff.mp hfirst
    cases hnone
    exact .cons hb hrest

theorem words_append (p q : Pattern) : words (p ++ q) = p.words * q.words := by
  induction p with
  | nil => rw [List.nil_append, words_nil, one_mul]
  | cons c rest ih => rw [List.cons_append, words_cons, ih, words_cons c rest, mul_assoc]

/-- A place for one byte stands for the word of that byte. -/
theorem words_exactly (b : UInt8) : words [.exactly b] = (RegularExpression.char b).matches' := by
  ext word
  constructor
  · intro h
    obtain ⟨found, none, hfound, hnone, rfl⟩ := List.forall₂_cons_left_iff.mp h
    cases hnone
    cases eq_of_beq hfound
    rfl
  · rintro rfl
    exact .cons (beq_self_eq_true b) .nil

/-- The pattern of a text stands for that text. -/
theorem words_ofText (text : String) : words (ofText text) = (literal text).matches' := by
  unfold ofText literal
  -- byte by byte: a place for each, as the expression has a character for each
  induction text.toUTF8.data.toList with
  | nil => exact words_nil
  | cons b rest ih =>
    rw [List.map_cons, words_cons, words_exactly, ih]
    rfl

/-- A byte is a digit if it is one of the ten. -/
theorem allows_digit_iff (b : UInt8) :
    ByteClass.digit.allows b = true ↔ b ∈ "0123456789".toUTF8.data.toList := by
  -- the ten digits follow one another among the bytes
  have hten : "0123456789".toUTF8.data.toList = (List.range' 0x30 10).map UInt8.ofNat := rfl
  rw [hten]
  constructor
  · intro h
    rw [ByteClass.allows, Bool.and_eq_true, decide_eq_true_iff, decide_eq_true_iff,
      UInt8.le_iff_toNat_le, UInt8.le_iff_toNat_le] at h
    have hrange : b.toNat ∈ List.range' 0x30 10 := by
      rw [List.mem_range'_1]
      exact ⟨h.1, Nat.lt_succ_of_le h.2⟩
    exact List.mem_map.mpr ⟨b.toNat, hrange, UInt8.ofNat_toNat⟩
  · intro h
    obtain ⟨n, hn, rfl⟩ := List.mem_map.mp h
    revert n
    decide

end Pattern

/-- A word matches one of some expressions exactly when it matches any of them. -/
theorem Signature.mem_anyOf_iff {choices : List (RegularExpression UInt8)} {word : List UInt8} :
    word ∈ (anyOf choices).matches' ↔ ∃ e ∈ choices, word ∈ e.matches' := by
  unfold anyOf
  induction choices with
  | nil => exact iff_of_false id (fun ⟨_, h, _⟩ => nomatch h)
  | cons e rest ih =>
    rw [List.foldr_cons, RegularExpression.matches'_add, Language.mem_add, ih,
      List.exists_mem_cons_iff]

/-- A place for a digit stands for the words of one digit. -/
theorem Pattern.words_digit : words [.digit] = anyDigit.matches' := by
  ext word
  rw [anyDigit, mem_anyOf_iff]
  constructor
  · intro h
    obtain ⟨b, none, hb, hnone, rfl⟩ := List.forall₂_cons_left_iff.mp h
    cases hnone
    exact ⟨.char b, List.mem_map_of_mem ((allows_digit_iff b).mp hb), rfl⟩
  · rintro ⟨e, he, hword⟩
    obtain ⟨b, hb, rfl⟩ := List.mem_map.mp he
    cases hword
    exact .cons ((allows_digit_iff b).mpr hb) .nil

theorem wordsOf_append (ps qs : List Pattern) : wordsOf (ps ++ qs) = wordsOf ps + wordsOf qs := by
  ext word
  rw [Language.mem_add]
  show (∃ p ∈ ps ++ qs, _) ↔ (∃ p ∈ ps, _) ∨ ∃ p ∈ qs, _
  simp only [List.mem_append, or_and_right, exists_or]

theorem wordsOf_singleton (p : Pattern) : wordsOf [p] = p.words := by
  ext word
  show (∃ q ∈ [p], _) ↔ _
  simp only [List.mem_singleton, exists_eq_left]

/-- The words of texts are what one of the texts matches. -/
theorem wordsOf_map_ofText (texts : List String) :
    wordsOf (texts.map Pattern.ofText) = (anyOf (texts.map literal)).matches' := by
  ext word
  rw [mem_anyOf_iff]
  show (∃ p ∈ texts.map Pattern.ofText, _) ↔ _
  simp only [List.mem_map, exists_exists_and_eq_and, Pattern.words_ofText]

/-- Patterns with a common front stand for its words and the words of what is behind. -/
theorem wordsOf_map_append (p : Pattern) (ps : List Pattern) :
    wordsOf (ps.map (p ++ ·)) = p.words * wordsOf ps := by
  ext word
  rw [Language.mem_mul]
  show (∃ q ∈ ps.map (p ++ ·), _) ↔ _
  simp only [List.mem_map, exists_exists_and_eq_and, Pattern.words_append, Language.mem_mul]
  constructor
  · rintro ⟨q, hq, front, hfront, back, hback, rfl⟩
    exact ⟨front, hfront, back, ⟨q, hq, hback⟩, rfl⟩
  · rintro ⟨front, hfront, back, ⟨q, hq, hback⟩, rfl⟩
    exact ⟨q, hq, front, hfront, back, hback, rfl⟩

/-- **Patterns and expressions stand for the same words**, language by language. -/
theorem wordsOf_signatures :
    List.Forall₂ (fun (s : String × List Pattern) (e : String × RegularExpression UInt8) =>
      s.1 = e.1 ∧ wordsOf s.2 = e.2.matches') signatures expressions := by
  have hgo : wordsOf (["runtime.", "goitab", "gotype", "gofunc", "gostring", "gointerface"].map
      Pattern.ofText) = (literal "runtime." + literal "go"
        * anyOf (["itab", "type", "func", "string", "interface"].map literal)).matches' := by
    -- the alternatives share their first two letters
    rw [RegularExpression.matches'_add, RegularExpression.matches'_mul, ← wordsOf_map_ofText,
      ← Pattern.words_ofText, ← Pattern.words_ofText, ← wordsOf_map_append, ← wordsOf_singleton,
      ← wordsOf_append]
    rfl
  have hpython : wordsOf (["PyImport_", "PyEval_"].map Pattern.ofText
      ++ [Pattern.ofText "Python" ++ [.digit] ++ Pattern.ofText "." ++ [.digit]])
      = (anyOf (["PyImport_", "PyEval_"].map literal)
        + literal "Python" * anyDigit * literal "." * anyDigit).matches' := by
    rw [wordsOf_append, wordsOf_map_ofText, wordsOf_singleton, Pattern.words_append,
      Pattern.words_append, Pattern.words_append, Pattern.words_ofText, Pattern.words_ofText,
      Pattern.words_digit]
    rfl
  exact .cons ⟨rfl, hgo⟩ (.cons ⟨rfl, wordsOf_map_ofText _⟩ (.cons ⟨rfl, wordsOf_map_ofText _⟩
    (.cons ⟨rfl, hpython⟩ (.cons ⟨rfl, wordsOf_map_ofText _⟩
      (.cons ⟨rfl, wordsOf_map_ofText _⟩ .nil)))))

/-!
## Looking for words

A pattern is looked for at every place of the bytes, so that it is found exactly when one of its
words is a factor of them.
-/

/-- A pattern stands at the front of the data if one of its words does. -/
theorem Pattern.startsAt_iff (p : Pattern) (bs : List UInt8) :
    p.startsAt bs = true ↔ ∃ word ∈ p.words, word <+: bs := by
  -- the first place looks at the first byte, and the others at what is behind
  induction p generalizing bs with
  | nil => exact iff_of_true rfl ⟨[], .nil, List.nil_prefix⟩
  | cons c rest ih =>
    cases bs with
    | nil =>
      refine iff_of_false nofun ?_
      rintro ⟨word, hword, hprefix⟩
      cases List.prefix_nil.mp hprefix
      cases hword
    | cons b more =>
      rw [startsAt, Bool.and_eq_true, ih]
      constructor
      · rintro ⟨hb, word, hword, hprefix⟩
        exact ⟨b :: word, .cons hb hword, List.cons_prefix_cons.mpr ⟨rfl, hprefix⟩⟩
      · rintro ⟨word, hword, hprefix⟩
        obtain ⟨first, tail, hfirst, htail, rfl⟩ := List.forall₂_cons_left_iff.mp hword
        obtain ⟨rfl, hbehind⟩ := List.cons_prefix_cons.mp hprefix
        exact ⟨hfirst, tail, htail, hbehind⟩

/-- One of some patterns stands at the front of the data if one of their words does. -/
theorem any_startsAt_iff (patterns : List Pattern) (bs : List UInt8) :
    patterns.any (·.startsAt bs) = true ↔ ∃ word ∈ wordsOf patterns, word <+: bs := by
  rw [List.any_eq_true]
  constructor
  · rintro ⟨p, hp, hstarts⟩
    obtain ⟨word, hword, hprefix⟩ := (p.startsAt_iff bs).mp hstarts
    exact ⟨word, ⟨p, hp, hword⟩, hprefix⟩
  · rintro ⟨word, ⟨p, hp, hword⟩, hprefix⟩
    exact ⟨p, hp, (p.startsAt_iff bs).mpr ⟨word, hword, hprefix⟩⟩

/-- **What is looked for at every position is found where it stands**, if it stands anywhere. -/
theorem anyOccurs_iff (patterns : List Pattern) (bs : List UInt8) :
    anyOccurs patterns bs = true ↔ ∃ word ∈ wordsOf patterns, word <:+: bs := by
  -- the positions from the first to the one behind the last byte
  induction bs with
  | nil => simp only [anyOccurs, any_startsAt_iff, List.prefix_nil, List.infix_nil]
  | cons b rest ih =>
    rw [anyOccurs, Bool.or_eq_true, any_startsAt_iff, ih]
    simp only [List.infix_cons_iff, and_or_left, exists_or]

/-- **A language is found exactly if one of its words stands in the data.** -/
theorem mem_matchingLanguages_iff (language : String) (bs : List UInt8) :
    language ∈ matchingLanguages bs
      ↔ ∃ e, (language, e) ∈ expressions ∧ ∃ word ∈ e.matches', word <:+: bs := by
  -- rules and expressions stand side by side, with the same words
  have hrules : (∃ s ∈ signatures, s.1 = language ∧ anyOccurs s.2 bs = true)
      ↔ ∃ e ∈ expressions, e.1 = language ∧ ∃ word ∈ e.2.matches', word <:+: bs := by
    refine exists_mem_iff_of_forall₂ wordsOf_signatures ?_
    rintro s e ⟨hname, hwords⟩
    rw [hname, anyOccurs_iff, hwords]
  rw [matchingLanguages, List.mem_map]
  constructor
  · rintro ⟨s, hs, hname⟩
    obtain ⟨hs, hoccurs⟩ := List.mem_filter.mp hs
    obtain ⟨⟨_, e⟩, he, rfl, hword⟩ := hrules.mp ⟨s, hs, hname, hoccurs⟩
    exact ⟨e, he, hword⟩
  · rintro ⟨e, he, hword⟩
    obtain ⟨s, hs, hname, hoccurs⟩ := hrules.mpr ⟨(language, e), he, rfl, hword⟩
    exact ⟨s, List.mem_filter.mpr ⟨hs, hoccurs⟩, hname⟩

/-- Languages are found in the order of the rules. -/
theorem matchingLanguages_sublist (bs : List UInt8) :
    (matchingLanguages bs).Sublist (signatures.map (·.1)) :=
  List.filter_sublist.map _

/-- What stands in a part of the data stands in the data. -/
theorem matchingLanguages_sublist_of_infix {part whole : List UInt8} (h : part <:+: whole) :
    (matchingLanguages part).Sublist (matchingLanguages whole) := by
  apply List.Sublist.map
  apply List.monotone_filter_right
  rintro ⟨language, patterns⟩ hfound
  obtain ⟨word, hword, hpart⟩ := (anyOccurs_iff patterns part).mp hfound
  exact (anyOccurs_iff patterns whole).mpr ⟨word, hword, hpart.trans h⟩

/-! ## Files -/

/-- A language is found exactly when a word that matches its expression stands in the data. Each is
found at most once, and always in the same order; what is found in a part of the data is found in
the data. Of a file only the first 65536 bytes matter, and each language found there contributes one
line. -/
theorem languages_found_by_their_words (bs : List UInt8) :
    (∀ language, language ∈ matchingLanguages bs
      ↔ ∃ e, (language, e) ∈ expressions ∧ ∃ word ∈ e.matches', word <:+: bs)
    ∧ (matchingLanguages bs).Sublist ["Go", "Rust", "C++", "Python", "Java", "Node"]
    ∧ (matchingLanguages bs).Nodup
    ∧ (∀ whole, bs <:+: whole → (matchingLanguages bs).Sublist (matchingLanguages whole))
    ∧ (∀ file other : Bytes, file.extract 0 65536 = other.extract 0 65536 →
        inspectSignatures file = inspectSignatures other)
    ∧ ∀ file : Bytes, (inspectSignatures file).findings
        = ⟨(matchingLanguages (file.extract 0 65536).toList).map Text.ofString,
          (matchingLanguages (file.extract 0 65536).toList).map fun (language : String) =>
            "Found " ++ language ++ " patterns in binary"⟩ := by
  have hsublist := matchingLanguages_sublist bs
  refine ⟨fun language => mem_matchingLanguages_iff language bs, hsublist, ?_,
    -- the order is that of the rules, which name no language twice
    fun whole => matchingLanguages_sublist_of_infix, ?_, ?_⟩
  · exact hsublist.nodup (by decide)
  · intro file other h
    rw [← inspectSignatures_extract file, h, inspectSignatures_extract]
  · intro file
    rw [List.map_eq_flatMap]
    exact Inspection.findings_concat_signals (fun (language : String) => [↑language]) _ _ _

/-- A word may stand at the very end, and overlap the beginning of another. -/
example : matchingLanguages "gogotype Python3.1std::".toUTF8.data.toList
    = ["Go", "C++", "Python"] := by
  decide +kernel

end Provenance
