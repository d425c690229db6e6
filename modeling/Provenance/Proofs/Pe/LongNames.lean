import Provenance.Proofs.Numeral
import Provenance.Proofs.Pe.Acceptance
import Provenance.Proofs.Strings

/-!
# Long section names

A name field of eight bytes that starts with a slash can stand for a longer name: the text behind
the slash spells a place in the string table, which follows the symbol table. The place is read
like any integer in text, so that it may have a sign, blanks and underscores; a negative one lies in
front of the table.

* `HasString` — the string table has a string at a place.
* `Resolves`, `ResolvesPlainly` — the string that a text stands for, with all the spellings of an
  integer or with those of decimal digits alone.
* `NamedBy` — a section has the resolved name where there is one, and its name field otherwise.

Main result:

* `long_names_resolved_as_spelled` — what the sections of an image are called.
-/

namespace Provenance.Pe

open Text

variable {data : Bytes} {img : Image} {s : Section} {text : List Char} {n : Int} {name : String}

/-- There is a symbol table, and at a place counted from the start of the string table behind it
stands a string that is not empty: the characters up to the first NUL or the end of the file. -/
def HasString (img : Image) (n : Int) (name : String) : Prop :=
  img.coff.symbolTableOffset ≠ 0
    ∧ ∃ place : Nat, place = img.coff.symbolTableOffset + 18 * img.coff.symbolCount + n
      ∧ name = asciiText ((img.data.extract place img.data.size).toList.takeWhile (· ≠ 0))
      ∧ name ≠ ""

/-- The text spells the place of a string. -/
def Resolves (img : Image) (text : List Char) (name : String) : Prop :=
  ∃ n, Spells text n ∧ HasString img n name

/-- The text consists of decimal digits, one or more, and these are the place of a string. -/
def ResolvesPlainly (img : Image) (text : List Char) (name : String) : Prop :=
  text ≠ [] ∧ (∀ d ∈ text, d.isDigit = true) ∧ HasString img (decimal text) name

/-- The section has the name that `resolves` gives, and if there is none the one in its header. -/
def NamedBy (resolves : String → Prop) (s : Section) : Prop :=
  (∀ name, resolves name → s.name = name)
    ∧ ((∀ name, ¬ resolves name) → s.name = s.header.nameText)

/-!
## Strings of the string table

The string table is behind the symbols. A string of it is what stands at its place, up to the first
zero or the end of the file.
-/

/-- The reader has the same strings: it finds an empty one where there is none. -/
theorem hasString_iff :
    HasString img n name ↔ ∃ table, img.coff.stringTableOffset? = some table
      ∧ name = img.data.cString (table + n) none ∧ name ≠ "" := by
  have htable : img.coff.symbolTableOffset + img.coff.symbolCount * CoffHeader.symbolSize
      = img.coff.symbolTableOffset + 18 * img.coff.symbolCount := by
    rw [CoffHeader.symbolSize, Int.mul_comm]
  rw [HasString, CoffHeader.stringTableOffset?, htable]
  split
  · next hzero => simp [hzero]
  · next hnonzero =>
    simp only [ne_eq, hnonzero, not_false_eq_true, true_and, Option.some.injEq, exists_eq_left']
    constructor
    · rintro ⟨place, hplace, rfl, hne⟩
      rw [← hplace, Bytes.cString_none_eq]
      exact ⟨rfl, hne⟩
    · rintro ⟨rfl, hne⟩
      -- a negative place would have given the empty string
      have hplace : 0 ≤ img.coff.symbolTableOffset + 18 * img.coff.symbolCount + n :=
        Int.not_lt.mp fun hneg => hne (img.data.cString_outside (.inl hneg))
      refine ⟨_, Int.toNat_of_nonneg hplace, ?_, hne⟩
      rw [← Bytes.cString_none_eq, Int.toNat_of_nonneg hplace]

/-- What a text spells is the only place that it stands for. -/
theorem Resolves.hasString (h : Resolves img text name) (hn : Spells text n) :
    HasString img n name := by
  obtain ⟨m, hm, hstring⟩ := h
  cases (readInt?_eq_some_iff.mpr hm).symm.trans (readInt?_eq_some_iff.mpr hn)
  exact hstring

/-- Without blanks, signs and underscores a text resolves only as digits. -/
theorem resolves_iff_of_plain (hplain : ∀ c ∈ text, IsPlain c) :
    Resolves img text name ↔ ResolvesPlainly img text name := by
  simp only [Resolves, ResolvesPlainly, spells_iff_of_plain hplain]
  constructor
  · rintro ⟨_, ⟨hne, hdigits, rfl⟩, hstring⟩
    exact ⟨hne, hdigits, hstring⟩
  · rintro ⟨hne, hdigits, hstring⟩
    exact ⟨_, ⟨hne, hdigits, rfl⟩, hstring⟩

/-! ## Names of sections -/

/-- A section has the name that its header and the string table give it. -/
theorem name_of_ofBytes (h : Image.ofBytes data = .ok img) (hs : s ∈ img.sections) :
    s.name = sectionName img.data img.coff s.header := by
  obtain ⟨-, rfl⟩ := ofBytes_eq_ok_iff.mp h
  rw [sections_imageIn, List.mem_map] at hs
  obtain ⟨i, -, rfl⟩ := hs
  rfl

/-- A name field with a slash is resolved as the text behind the slash says. -/
theorem namedBy_resolves (hname : s.name = sectionName img.data img.coff s.header)
    (htext : s.header.nameText.toList = '/' :: text) : NamedBy (Resolves img text) s := by
  simp only [sectionName, htext] at hname
  -- the text spells an integer and there is a string table, or one of the two is missing
  split at hname
  · next n table hread htable =>
    have hspells : Spells text n := readInt?_eq_some_iff.mp hread
    by_cases hempty : img.data.cString (table + n) none = ""
    · -- the place has no string, and the text stands for no other
      have hnone : ∀ name, ¬ Resolves img text name := by
        intro name hresolves
        obtain ⟨table', htable', hstring, hne⟩ := hasString_iff.mp (hresolves.hasString hspells)
        cases htable.symm.trans htable'
        exact hne (hstring.trans hempty)
      refine ⟨fun name h => absurd h (hnone name), fun _ => ?_⟩
      simpa [hempty] using hname
    · have hfound : s.name = img.data.cString (table + n) none := by
        rw [hname, if_neg (by simpa using hempty)]
      refine ⟨fun name hresolves => ?_, fun hnone => ?_⟩
      · obtain ⟨table', htable', rfl, -⟩ := hasString_iff.mp (hresolves.hasString hspells)
        cases htable.symm.trans htable'
        exact hfound
      · exact absurd ⟨n, hspells, hasString_iff.mpr ⟨table, htable, rfl, hempty⟩⟩ (hnone _)
  · next hmissing =>
    -- the text spells nothing, or there is no string table
    refine ⟨?_, fun _ => hname⟩
    rintro name ⟨n, hspells, hstring⟩
    obtain ⟨table, htable, -⟩ := hasString_iff.mp hstring
    exact absurd htable (hmissing n table (readInt?_eq_some_iff.mpr hspells))

/-- A section whose name field starts with a slash has the string of the string table whose place
the text behind the slash spells; if the text spells no integer, or there is no string, it has the
name field itself. Where the text has no sign, no blank and no underscore, only decimal digits spell
a place; and where it has no minus, no name is taken from in front of the string table. -/
theorem long_names_resolved_as_spelled (h : Image.ofBytes data = .ok img) (hs : s ∈ img.sections)
    (htext : s.header.nameText.toList = '/' :: text) :
    NamedBy (Resolves img text) s
      ∧ ((∀ c ∈ text, IsPlain c) → NamedBy (ResolvesPlainly img text) s)
      ∧ ('-' ∉ text → s.name = s.header.nameText ∨ ∃ n : Nat, HasString img n s.name) := by
  have hnamed := namedBy_resolves (name_of_ofBytes h hs) htext
  refine ⟨hnamed, fun hplain => ?_, fun hminus => ?_⟩
  · simpa only [NamedBy, resolves_iff_of_plain hplain] using hnamed
  -- without a minus the place of the string is not in front of the table
  · by_cases hresolves : ∃ name, Resolves img text name
    · obtain ⟨name, n, hspells, hstring⟩ := hresolves
      obtain ⟨m, rfl⟩ := Int.eq_ofNat_of_zero_le (hspells.nonneg hminus)
      exact .inr ⟨m, hnamed.1 name ⟨_, hspells, hstring⟩ ▸ hstring⟩
    · exact .inl (hnamed.2 (not_exists.mp hresolves))

/-- An object with a string table that has the string `data` at the place 4. The four bytes in front
of the table spell `bad`. Its only section has the given name field of eight bytes. -/
def namedObject (field : List UInt8) : Bytes :=
  let zeros := fun n => List.replicate n (0 : UInt8)
  let headers := [0x4D, 0x5A] ++ zeros 58 ++ [64, 0, 0, 0] ++ signature
    ++ [0x4C, 1, 1, 0] ++ zeros 4 ++ [132, 0, 0, 0] ++ zeros 8
  let strings := [0x62, 0x61, 0x64, 0] ++ [9, 0, 0, 0] ++ [0x64, 0x61, 0x74, 0x61, 0]
  (headers ++ field ++ zeros 32 ++ strings).toArray

/-- The field `/4` stands for `data`. -/
theorem namedObject_long_name :
    ∃ img, Image.ofBytes (namedObject [0x2F, 0x34, 0, 0, 0, 0, 0, 0]) = .ok img
      ∧ ∃ s ∈ img.sections, s.header.nameText.toList = ['/', '4'] ∧ s.name = "data" := by
  obtain ⟨img, hread, hfound⟩ := exists_ok_of_any
    (x := Image.ofBytes (namedObject [0x2F, 0x34, 0, 0, 0, 0, 0, 0]))
    (p := fun img => decide (∃ s ∈ img.sections, s.header.nameText.toList = ['/', '4']
      ∧ img.coff.symbolTableOffset = 132 ∧ img.coff.symbolCount = 0
      ∧ asciiText ((img.data.extract 136 img.data.size).toList.takeWhile (· ≠ 0)) = "data"))
    (by decide +kernel)
  obtain ⟨s, hs, htext, htable, hcount, hstring⟩ := of_decide_eq_true hfound
  obtain ⟨-, hplain, -⟩ := long_names_resolved_as_spelled hread hs htext
  have hfour : decimal ['4'] = 4 := rfl
  -- the digit 4 leads to place 136, four behind the start of the string table
  obtain ⟨hlong, -⟩ := hplain (List.forall_mem_singleton.mpr (by decide))
  refine ⟨img, hread, s, hs, htext, hlong _ ⟨by simp, List.forall_mem_singleton.mpr rfl, ?_⟩⟩
  exact ⟨by omega, 136, by omega, hstring.symm, by simp⟩

/-- With a minus the field stands for what is in front of the string table, though what is behind
the slash is no number of decimal digits. -/
theorem namedObject_name_before_table :
    ∃ img, Image.ofBytes (namedObject [0x2F, 0x2D, 0x34, 0, 0, 0, 0, 0]) = .ok img
      ∧ ∃ s ∈ img.sections, s.header.nameText.toList = ['/', '-', '4'] ∧ s.name = "bad"
        ∧ (∀ name, ¬ ResolvesPlainly img ['-', '4'] name) ∧ s.name ≠ s.header.nameText := by
  obtain ⟨img, hread, hfound⟩ := exists_ok_of_any
    (x := Image.ofBytes (namedObject [0x2F, 0x2D, 0x34, 0, 0, 0, 0, 0]))
    (p := fun img => decide (∃ s ∈ img.sections,
      s.header.nameText.toList = ['/', '-', '4'] ∧ s.name = "bad" ∧ s.name ≠ s.header.nameText))
    (by decide +kernel)
  obtain ⟨s, hs, htext, hname, hne⟩ := of_decide_eq_true hfound
  refine ⟨img, hread, s, hs, htext, hname, ?_, hne⟩
  rintro name ⟨-, hdigits, -⟩
  exact absurd (hdigits '-' (by simp)) (by decide)

end Provenance.Pe
