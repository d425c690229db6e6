import Provenance.Text
import Provenance.Text.Ascii
import Provenance.Text.Utf8

/-!
# Texts are read back

Decoding never fails, and so it says little by itself. Here it undoes encoding: the bytes of a text
spell this text and no other.

* `asciiBytes`, `asciiText_asciiBytes` — one byte for each character.
* `utf8Bytes`, `utf8Text_utf8Bytes` — UTF-8. The bytes of one character take the decoder from
  between two characters to between two characters (`utf8Chars_utf8EncodeChar`), and the text
  follows by induction on its characters.
* `zero_not_mem_utf8Bytes` — a text without NUL has no byte that is zero.
* `Text.isWhole_append`, `Text.isWhole_intercalate` — what is put together from strings is a string.
-/

namespace Provenance

-- the bound is spelled out, so that it is one that can be computed with
theorem toNat_byte {n : Nat} (h : n < 256) : (UInt8.ofNat n).toNat = n :=
  UInt8.toNat_ofNat_of_lt' h

theorem byte_ne_zero {n : Nat} (hpos : 0 < n) (hlt : n < 256) : UInt8.ofNat n ≠ 0 := by
  intro hzero
  have hnat := congrArg UInt8.toNat hzero
  rw [toNat_byte hlt] at hnat
  exact Nat.ne_of_gt hpos hnat

/-! ## ASCII -/

/-- The bytes of a text, one for each character. -/
def asciiBytes (text : String) : List UInt8 := text.toList.map fun c => UInt8.ofNat c.toNat

/-- A text of ASCII characters other than NUL. -/
def IsAscii (text : String) : Prop := ∀ c ∈ text.toList, 0 < c.toNat ∧ c.toNat < 0x80

-- the characters of the text are looked at, and not all characters
instance (text : String) : Decidable (IsAscii text) := List.decidableBAll _ text.toList

theorem length_asciiBytes (text : String) : (asciiBytes text).length = text.length := by
  rw [asciiBytes, List.length_map, String.length_toList]

/-- The bytes of an ASCII text spell it again. -/
theorem asciiText_asciiBytes {text : String} (h : IsAscii text) :
    asciiText (asciiBytes text) = text := by
  have hchars : (text.toList.map fun c => UInt8.ofNat c.toNat).map asciiChar = text.toList := by
    rw [List.map_map]
    refine (List.map_congr_left ?_).trans (List.map_id _)
    intro c hc
    obtain ⟨-, hlt⟩ := h c hc
    have hbyte : (UInt8.ofNat c.toNat).toNat = c.toNat := toNat_byte (by omega)
    -- a byte below 80 is decoded as the character with its code
    show (if UInt8.ofNat c.toNat < 0x80 then _ else _) = c
    rw [if_pos (UInt8.lt_iff_toNat_lt.mpr (by rw [hbyte]; exact hlt)), hbyte, Char.ofNat_toNat]
  rw [asciiText, asciiBytes, hchars, String.ofList_toList]

theorem ne_zero_of_mem_asciiBytes {text : String} (h : IsAscii text) {b : UInt8}
    (hb : b ∈ asciiBytes text) : b ≠ 0 := by
  obtain ⟨c, hc, rfl⟩ := List.mem_map.mp hb
  obtain ⟨hpos, hlt⟩ := h c hc
  exact byte_ne_zero hpos (by omega)

/-- Bytes that are not zero end at the first zero behind them, or with the data. -/
theorem takeWhile_append_zeros {bs : List UInt8} (h : ∀ b ∈ bs, b ≠ 0) (count : Nat) :
    (bs ++ List.replicate count 0).takeWhile (· ≠ 0) = bs := by
  have hall : ∀ b ∈ bs, decide (b ≠ 0) = true := fun b hb => decide_eq_true (h b hb)
  rw [List.takeWhile_append_of_pos hall]
  cases count with
  | zero => exact List.append_nil bs
  | succ count => exact List.append_nil bs

/-!
## UTF-8

The reader takes one byte at a time and keeps what it has of an unfinished character. One character
is taken in as many steps as it has bytes, and a text by induction on its characters.
-/

/-- The bytes of a text in UTF-8. -/
def utf8Bytes (text : String) : List UInt8 := text.toUTF8.data.toList

/-- The bytes of a text are those of its characters, one character after the other. -/
theorem utf8Bytes_eq (text : String) :
    utf8Bytes text = text.toList.flatMap String.utf8EncodeChar := by
  have h : text.toByteArray = text.toList.utf8Encode := by
    rw [← String.toByteArray_ofList, String.ofList_toList]
  rw [utf8Bytes, String.toUTF8_eq_toByteArray, h, List.utf8Encode, List.data_toByteArray]

/-! ### One byte -/

section Byte

variable {done : List Char} {b : UInt8} {rest : List UInt8} {owed low high bits : Nat}

theorem utf8Chars_single (h : b.toNat < 0x80) :
    utf8Chars done .start (b :: rest) = utf8Chars (Char.ofNat b.toNat :: done) .start rest := by
  simp only [utf8Chars, Utf8State.next, Utf8State.first, if_pos h, List.reverse_singleton,
    List.singleton_append]

/-- The first byte of a longer character tells how many are owed, and the range of the next one. -/
theorem utf8Chars_first (hb : 0x80 ≤ b.toNat)
    (h : continuation b = some (owed, low, high, bits)) :
    utf8Chars done .start (b :: rest) = utf8Chars done (.inside owed low high bits) rest := by
  simp only [utf8Chars, Utf8State.next, Utf8State.first, if_neg (Nat.not_lt.mpr hb), h,
    List.reverse_nil, List.nil_append]

/-- The last byte of a character completes its code. -/
theorem utf8Chars_last (h : low ≤ b.toNat ∧ b.toNat ≤ high) :
    utf8Chars done (.inside 1 low high bits) (b :: rest)
      = utf8Chars (Char.ofNat (bits * 64 + b.toNat % 64) :: done) .start rest := by
  simp only [utf8Chars, Utf8State.next, if_pos h, continuationBits, Nat.le_refl, if_true,
    List.reverse_singleton, List.singleton_append]

/-- A byte in between adds its six bits, and more are owed. -/
theorem utf8Chars_inner (h : low ≤ b.toNat ∧ b.toNat ≤ high) :
    utf8Chars done (.inside (owed + 2) low high bits) (b :: rest)
      = utf8Chars done (.inside (owed + 1) 0x80 0xBF (bits * 64 + b.toNat % 64)) rest := by
  have howed : ¬ owed + 2 ≤ 1 := by omega
  simp only [utf8Chars, Utf8State.next, if_pos h, continuationBits, if_neg howed,
    List.reverse_nil, List.nil_append]
  rfl

end Byte

/-! ### One character -/

/-- A character of two bytes owes one more, of any value that marks a byte behind the first. -/
theorem continuation_two {n : Nat} (hlow : 0x80 ≤ n) (hhigh : n ≤ 0x7FF) :
    continuation (.ofNat (n / 64 % 32 + 192)) = some (1, 0x80, 0xBF, n / 64) := by
  have hbyte : (UInt8.ofNat (n / 64 % 32 + 192)).toNat = n / 64 + 192 := by
    rw [toNat_byte (by omega)]
    omega
  rw [continuation, hbyte]
  rw [if_pos (by omega), Nat.add_sub_cancel]

/-- The second byte of a character of three is in the range that the first one sets: there is no
shorter form, and no surrogate. -/
theorem continuation_three {n : Nat} (hlow : 0x800 ≤ n) (hhigh : n ≤ 0xFFFF)
    (hscalar : n < 0xD800 ∨ 0xE000 ≤ n) :
    ∃ low high, continuation (.ofNat (n / 4096 % 16 + 224)) = some (2, low, high, n / 4096)
      ∧ low ≤ n / 64 % 64 + 128 ∧ n / 64 % 64 + 128 ≤ high := by
  have hbyte : (UInt8.ofNat (n / 4096 % 16 + 224)).toNat = n / 4096 + 224 := by
    rw [toNat_byte (by omega)]
    omega
  rw [continuation, hbyte]
  rw [if_neg (by omega)]
  by_cases hfirst : n / 4096 = 0
  · rw [if_pos (by omega), hfirst]
    -- without the leading bits the second byte starts higher, or the code would have a shorter form
    exact ⟨_, _, rfl, by omega, by omega⟩
  rw [if_neg (by omega)]
  by_cases hsurrogate : n / 4096 = 0xD
  · rw [if_pos (by omega), hsurrogate]
    -- with the leading bits of the surrogates it ends lower
    exact ⟨_, _, rfl, by omega, by omega⟩
  rw [if_neg (by omega), if_pos (by omega), Nat.add_sub_cancel]
  exact ⟨_, _, rfl, by omega, by omega⟩

/-- The second byte of a character of four is in the range that the first one sets: there is no
shorter form, and nothing behind the last character. -/
theorem continuation_four {n : Nat} (hlow : 0x10000 ≤ n) (hhigh : n < 0x110000) :
    ∃ low high, continuation (.ofNat (n / 262144 % 8 + 240)) = some (3, low, high, n / 262144)
      ∧ low ≤ n / 4096 % 64 + 128 ∧ n / 4096 % 64 + 128 ≤ high := by
  have hbyte : (UInt8.ofNat (n / 262144 % 8 + 240)).toNat = n / 262144 + 240 := by
    rw [toNat_byte (by omega)]
    omega
  rw [continuation, hbyte]
  rw [if_neg (by omega), if_neg (by omega), if_neg (by omega), if_neg (by omega)]
  -- the least and the greatest of the first bytes narrow the range of the second
  by_cases hfirst : n / 262144 = 0
  · rw [if_pos (by omega), hfirst]
    exact ⟨_, _, rfl, by omega, by omega⟩
  rw [if_neg (by omega)]
  by_cases hlast : n / 262144 = 4
  · rw [if_neg (by omega), if_pos (by omega), hlast]
    exact ⟨_, _, rfl, by omega, by omega⟩
  rw [if_pos (by omega), Nat.add_sub_cancel]
  exact ⟨_, _, rfl, by omega, by omega⟩

/-- The bytes of a character are read as this character, whatever follows. -/
theorem utf8Chars_utf8EncodeChar (c : Char) (done : List Char) (rest : List UInt8) :
    utf8Chars done .start (String.utf8EncodeChar c ++ rest)
      = utf8Chars (c :: done) .start rest := by
  have hscalar : c.toNat < 0xD800 ∨ 0xE000 ≤ c.toNat ∧ c.toNat < 0x110000 := by
    rcases c.valid with h | ⟨hlow, hhigh⟩
    · exact .inl h
    · exact .inr ⟨hlow, hhigh⟩
  -- the bytes behind the first carry six bits each, below the two that mark them
  have htail : ∀ n : Nat, 0x80 ≤ (UInt8.ofNat (n % 64 + 128)).toNat
      ∧ (UInt8.ofNat (n % 64 + 128)).toNat ≤ 0xBF := by
    intro n
    rw [toNat_byte (by omega)]
    omega
  have hval : c.val.toNat = c.toNat := rfl
  -- one case for each number of bytes; the payloads add up to the code of the character
  rw [String.utf8EncodeChar, hval]
  split
  next h1 =>
    have hbyte : (UInt8.ofNat c.toNat).toNat = c.toNat := toNat_byte (by omega)
    rw [List.singleton_append, utf8Chars_single (by omega), hbyte, Char.ofNat_toNat]
  next h1 =>
    split
    next h2 =>
      have hbits : c.toNat / 64 * 64 + (UInt8.ofNat (c.toNat % 64 + 128)).toNat % 64 = c.toNat := by
        rw [toNat_byte (by omega)]
        omega
      rw [List.cons_append, List.singleton_append,
        utf8Chars_first (by rw [toNat_byte] <;> omega) (continuation_two (by omega) h2),
        utf8Chars_last (htail _), hbits, Char.ofNat_toNat]
    next h2 =>
      split
      next h3 =>
        obtain ⟨low, high, hfirst, hsecond⟩ :=
          continuation_three (by omega) h3 (hscalar.imp_right And.left)
        rw [← toNat_byte (n := c.toNat / 64 % 64 + 128) (by omega)] at hsecond
        have hbits : (c.toNat / 4096 * 64 + (UInt8.ofNat (c.toNat / 64 % 64 + 128)).toNat % 64) * 64
            + (UInt8.ofNat (c.toNat % 64 + 128)).toNat % 64 = c.toNat := by
          rw [toNat_byte (by omega), toNat_byte (by omega)]
          omega
        rw [List.cons_append, List.cons_append, List.singleton_append,
          utf8Chars_first (by rw [toNat_byte] <;> omega) hfirst, utf8Chars_inner hsecond,
          utf8Chars_last (htail _), hbits, Char.ofNat_toNat]
      next h3 =>
        obtain ⟨low, high, hfirst, hsecond⟩ :=
          continuation_four (n := c.toNat) (by omega) (by omega)
        rw [← toNat_byte (n := c.toNat / 4096 % 64 + 128) (by omega)] at hsecond
        have hbits : ((c.toNat / 262144 * 64
            + (UInt8.ofNat (c.toNat / 4096 % 64 + 128)).toNat % 64) * 64
            + (UInt8.ofNat (c.toNat / 64 % 64 + 128)).toNat % 64) * 64
            + (UInt8.ofNat (c.toNat % 64 + 128)).toNat % 64 = c.toNat := by
          rw [toNat_byte (by omega), toNat_byte (by omega),
            toNat_byte (by omega)]
          omega
        rw [List.cons_append, List.cons_append, List.cons_append, List.singleton_append,
          utf8Chars_first (by rw [toNat_byte] <;> omega) hfirst, utf8Chars_inner hsecond,
          utf8Chars_inner (htail _), utf8Chars_last (htail _), hbits, Char.ofNat_toNat]

/-- No byte of a character other than NUL is zero. -/
theorem ne_zero_of_mem_utf8EncodeChar {c : Char} (h : c ≠ '\x00') {b : UInt8}
    (hb : b ∈ String.utf8EncodeChar c) : b ≠ 0 := by
  have hpos : 0 < c.toNat := by
    rcases Nat.eq_zero_or_pos c.toNat with hzero | hpos
    · rw [← Char.ofNat_toNat c, hzero] at h
      exact absurd rfl h
    · exact hpos
  have hval : c.val.toNat = c.toNat := rfl
  rw [String.utf8EncodeChar, hval] at hb
  split at hb
  next h1 =>
    cases List.mem_singleton.mp hb
    exact byte_ne_zero hpos (by omega)
  -- every byte of a longer form has its highest bit set
  next h1 =>
    split at hb
    next h2 =>
      simp only [List.mem_cons, List.not_mem_nil, or_false] at hb
      rcases hb with rfl | rfl <;> exact byte_ne_zero (by omega) (by omega)
    next h2 =>
      split at hb
      next h3 =>
        simp only [List.mem_cons, List.not_mem_nil, or_false] at hb
        rcases hb with rfl | rfl | rfl <;> exact byte_ne_zero (by omega) (by omega)
      next h3 =>
        simp only [List.mem_cons, List.not_mem_nil, or_false] at hb
        rcases hb with rfl | rfl | rfl | rfl <;> exact byte_ne_zero (by omega) (by omega)

/-! ### A text -/

/-- The bytes of characters are read as these characters, one after the other. -/
theorem utf8Chars_flatMap (chars done : List Char) :
    utf8Chars done .start (chars.flatMap String.utf8EncodeChar) = done.reverse ++ chars := by
  induction chars generalizing done with
  | nil =>
    rw [List.append_nil]
    rfl
  | cons c rest ih =>
    rw [List.flatMap_cons, utf8Chars_utf8EncodeChar, ih, List.reverse_cons, List.append_assoc,
      List.singleton_append]

/-- The bytes of a text spell this text. -/
theorem utf8Text_utf8Bytes (text : String) : utf8Text (utf8Bytes text) = text := by
  rw [utf8Text, utf8Bytes_eq, utf8Chars_flatMap, List.reverse_nil, List.nil_append,
    String.ofList_toList]

theorem zero_not_mem_utf8Bytes {text : String} (h : '\x00' ∉ text.toList) :
    ∀ b ∈ utf8Bytes text, b ≠ 0 := by
  intro b hb
  rw [utf8Bytes_eq] at hb
  obtain ⟨c, hc, hbyte⟩ := List.mem_flatMap.mp hb
  exact ne_zero_of_mem_utf8EncodeChar (fun heq => h (heq ▸ hc)) hbyte

/-! ## Texts that are strings -/

namespace Text

theorem isWhole_append {s t : Text} (hs : isWhole s = true) (ht : isWhole t = true) :
    isWhole (s ++ t) = true := by
  rw [isWhole, List.all_append, Bool.and_eq_true]
  exact ⟨hs, ht⟩

/-- Whole texts with a whole separator between them are a whole text. -/
theorem isWhole_intercalate {separator : Text} (hseparator : isWhole separator = true)
    {parts : List Text} (h : ∀ p ∈ parts, isWhole p = true) :
    isWhole (intercalate separator parts) = true := by
  induction parts with
  | nil => rfl
  | cons p rest ih =>
    have hp := h p List.mem_cons_self
    have hrest := ih fun q hq => h q (List.mem_cons_of_mem p hq)
    cases rest with
    | nil =>
      rw [intercalate, List.intercalate_singleton]
      exact hp
    | cons q more =>
      rw [intercalate, List.intercalate_cons_cons]
      exact isWhole_append (isWhole_append hp hseparator) hrest

end Text

end Provenance
