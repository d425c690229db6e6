import Provenance.Pe.Record
import Provenance.Proofs.Strings

/-!
# Texts that end at a NUL

Names stand in a file in two ways: as strings at an offset, which end at a NUL, and in fields of
fixed size, which are filled up with NULs. Offsets and limits are computed from words of the file,
so they may be negative or lie far behind its end.

* `Bytes.DecodedAs` — a text spells the bytes between two places, one character for each byte.
* `Bytes.DecodedAs.nul_not_mem` — such a text has a NUL only where the bytes have one.
* `fixedName_eq_cString` — a name field is read like the string at the start of data that consist
  of the field.

Main result:

* `strings_are_longest_runs` — what any string is, whatever its offset and limit, and that name
  fields are such strings.
-/

namespace Provenance

/-- A byte below 80 is the character with its code, and every other byte is U+FFFD. -/
theorem toNat_asciiChar (b : UInt8) :
    (asciiChar b).toNat = if b.toNat < 0x80 then b.toNat else 0xFFFD := by
  have hlt : b < 0x80 ↔ b.toNat < 0x80 := UInt8.lt_iff_toNat_lt
  rw [asciiChar]
  by_cases h : b.toNat < 0x80
  · have hvalid : b.toNat.isValidChar := .inl (by omega)
    rw [if_pos (hlt.mpr h), if_pos h, Char.ofNat, dif_pos hvalid]
    rfl
  · rw [if_neg (mt hlt.mp h), if_neg h]
    rfl

namespace Bytes

variable {data : Bytes} {start stop : Nat} {text : String}

/-- A text spells the bytes from one place up to another as ASCII: there is one character for each
byte, and it has the code of the byte or, for a byte that is not ASCII, is U+FFFD. -/
structure DecodedAs (data : Bytes) (start stop : Nat) (text : String) : Prop where
  length_eq : text.length = stop - start
  code_eq : ∀ i b c, data[start + i]? = some b → text.toList[i]? = some c →
    c.toNat = if b.toNat < 0x80 then b.toNat else 0xFFFD

/-- Cut out of the data, the bytes are spelled one by one. -/
theorem decodedAs_extract (hstop : stop ≤ data.size) :
    data.DecodedAs start stop (asciiText (data.extract start stop).toList) where
  length_eq := by
    rw [asciiText, String.length_ofList, List.length_map, Array.length_toList, Array.size_extract,
      Nat.min_eq_left hstop]
  code_eq := by
    intro i b c hb hc
    rw [asciiText, String.toList_ofList, List.getElem?_map, Array.getElem?_toList] at hc
    obtain ⟨byte, hbyte, rfl⟩ := Option.map_eq_some_iff.mp hc
    rw [Array.getElem?_extract] at hbyte
    split at hbyte
    · cases hb.symm.trans hbyte
      exact toNat_asciiChar b
    · cases hbyte

/-- No byte other than NUL is decoded as NUL. -/
theorem DecodedAs.nul_not_mem (h : data.DecodedAs start stop text) (hfree : data.NulFree start stop)
    -- a character with the code 0 would stand for a byte that is 0, and there is none in the run
    (hstop : stop ≤ data.size) : '\x00' ∉ text.toList := by
  intro hmem
  obtain ⟨i, hi⟩ := List.getElem?_of_mem hmem
  obtain ⟨hlt, -⟩ := List.getElem?_eq_some_iff.mp hi
  rw [String.length_toList, h.length_eq] at hlt
  have hbyte : data[start + i]? = some data[start + i] := Array.getElem?_eq_getElem (by omega)
  have hcode : 0 = if data[start + i].toNat < 0x80 then data[start + i].toNat else 0xFFFD :=
    h.code_eq i _ _ hbyte hi
  refine hfree (start + i) (by omega) (by omega) (hbyte.trans (congrArg some ?_))
  refine UInt8.toNat_inj.mp ?_
  show data[start + i].toNat = 0
  split at hcode <;> omega

end Bytes

/-- A name field is the string at the start of the field. -/
theorem fixedName_eq_cString (field : List UInt8) :
    fixedName field = Bytes.cString field.toArray 0 none := by
  have hstring := Bytes.cString_none_eq field.toArray 0
  rw [Array.extract_size] at hstring
  exact hstring.symm

/-- A string has no NUL. At an offset in the data and in front of its limit it is the text of the
longest run without a NUL that starts there and ends by the limit and the end of the data, one
character for each byte; at every other offset it is empty. Name fields, those of section headers
among them, are read like the string at the start of the field. -/
theorem strings_are_longest_runs :
    (∀ (data : Bytes) (offset : Int) (limit : Option Int),
      '\x00' ∉ (data.cString offset limit).toList
        ∧ if 0 ≤ offset ∧ offset < data.stringEnd limit then
            ∃ stop, data.LongestRun offset.toNat stop (data.stringEnd limit).toNat
              ∧ data.DecodedAs offset.toNat stop (data.cString offset limit)
          else data.cString offset limit = "")
      ∧ (∀ field : List UInt8, fixedName field = Bytes.cString field.toArray 0 none)
      ∧ ∀ header : Pe.SectionHeader,
          header.nameText = Bytes.cString header.name.toArray 0 none := by
  refine ⟨fun data offset limit => ?_, fixedName_eq_cString, fun header => ?_⟩
  · by_cases hinside : 0 ≤ offset ∧ offset < data.stringEnd limit
    · rw [if_pos hinside]
      obtain ⟨stop, hrun, htext⟩ := data.exists_longestRun_cString hinside.1 hinside.2
      have hstop : stop ≤ data.size := Nat.le_trans hrun.le_last (data.stringEnd_le_size limit)
      -- the run ends where the decoded text does
      have hdecoded : data.DecodedAs offset.toNat stop (data.cString offset limit) :=
        htext ▸ Bytes.decodedAs_extract hstop
      exact ⟨hdecoded.nul_not_mem hrun.nulFree hstop, stop, hrun, hdecoded⟩
    · rw [if_neg hinside]
      have hempty : data.cString offset limit = "" := data.cString_outside (by omega)
      rw [hempty]
      exact ⟨List.not_mem_nil, rfl⟩
  · exact fixedName_eq_cString header.name

-- the limit lies behind the data, and one byte is not ASCII
example : Bytes.cString #[0x78, 0xC3, 0x79, 0, 0x7A] 1 (some 9) = "\uFFFDy" := by decide

end Provenance
