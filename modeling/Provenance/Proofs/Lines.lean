import Provenance.Number.Shortest
import Provenance.Text.Lines
import Provenance.Text.Quoted

/-!
# Texts on one line

Which texts are on one line, and into which lines a text falls that is joined from several.

* `SingleLine` — no character of a text ends a line. It holds of what numbers and quoted bytes are
  written as.
* `lines_append_newline` — behind a line feed the lines of a text are those of the rest, whatever
  stands in front.
* `joinedLines` — the lines of texts with line feeds between them; `lines_intercalate` says that
  they are the lines of the joined text, and `joinedLines_eq_self` that they are the texts
  themselves where each is on one line.
-/

namespace Provenance.Text

/-!
## Texts without line ends

A text on one line holds no character that ends a line. Texts that are put together from such texts
are on one line as well.
-/

/-- No character of a text ends a line. -/
def SingleLine (text : Text) : Prop := ∀ c ∈ text, endsLine c = false

/-- Whether a text is on one line can be computed. -/
instance (text : Text) : Decidable (SingleLine text) := by
  unfold SingleLine
  infer_instance

/-- A text is on one line if both of its parts are. -/
@[simp]
theorem singleLine_append {front back : Text} :
    SingleLine (front ++ back) ↔ SingleLine front ∧ SingleLine back :=
  List.forall_mem_append

theorem SingleLine.append {front back : Text} (hfront : SingleLine front)
    (hback : SingleLine back) : SingleLine (front ++ back) :=
  singleLine_append.mpr ⟨hfront, hback⟩

theorem singleLine_ofString_iff {s : String} :
    SingleLine (ofString s) ↔ ∀ c ∈ s.toList, endsLine (.char c) = false :=
  List.forall_mem_map

/-- A string is on one line if both of its parts are. -/
@[simp]
theorem singleLine_ofString_append {s t : String} :
    SingleLine (ofString (s ++ t)) ↔ SingleLine (ofString s) ∧ SingleLine (ofString t) := by
  rw [ofString_append, singleLine_append]

/-- The characters of a literal are looked at without the bytes that it is kept as. -/
theorem SingleLine.literal {cs : List Char} (h : cs.any (fun c => endsLine (.char c)) = false) :
    SingleLine (ofString (String.ofList cs)) := by
  rw [singleLine_ofString_iff, String.toList_ofList]
  exact fun c hc => Bool.eq_false_iff.mpr (List.any_eq_false.mp h c hc)

/-- Texts on one line with separators on one line between them are on one line. -/
theorem SingleLine.intercalate {separator : Text} (hseparator : SingleLine separator)
    {parts : List Text} (h : ∀ p ∈ parts, SingleLine p) :
    SingleLine (Text.intercalate separator parts) := by
  -- on the parts: the separator stands behind each but the last
  induction parts with
  | nil => exact nofun
  | cons p rest ih =>
    rw [List.forall_mem_cons] at h
    cases rest with
    | nil =>
      rw [Text.intercalate, List.intercalate_singleton]
      exact h.1
    | cons q more =>
      rw [Text.intercalate, List.intercalate_cons_cons]
      exact (h.1.append hseparator).append (ih h.2)

/-!
## Numbers

Digits, signs and points end no line.
-/

/-- Whatever the base, each character of the digits is that of a digit. -/
theorem exists_digitChar_of_mem_toDigits {base n : Nat} (hbase : 1 < base) {c : Char}
    (h : c ∈ Nat.toDigits base n) : ∃ d < base, c = Nat.digitChar d := by
  -- on the number: the last digit is a remainder, and the others spell the quotient
  induction n using Nat.strongRecOn with
  | ind n ih =>
    rw [Nat.toDigits_eq_if hbase] at h
    split at h
    · next hlt => exact ⟨n, hlt, List.mem_singleton.mp h⟩
    · next hge =>
      rcases List.mem_append.mp h with hfront | hlast
      · exact ih (n / base) (Nat.div_lt_self (by omega) hbase) hfront
      · exact ⟨n % base, Nat.mod_lt _ (by omega), List.mem_singleton.mp hlast⟩

theorem endsLine_digitChar :
    ∀ d < 16, endsLine (.char (Nat.digitChar d)) = false
      ∧ endsLine (.char (Nat.digitChar d).toUpper) = false := by
  decide

theorem singleLine_nat (n : Nat) : SingleLine (ofString (toString n)) := by
  rw [singleLine_ofString_iff, Nat.toString_eq_ofList_toDigits, String.toList_ofList]
  intro c hc
  obtain ⟨d, hd, rfl⟩ := exists_digitChar_of_mem_toDigits (by decide) hc
  exact (endsLine_digitChar d (by omega)).1

theorem singleLine_int (n : Int) : SingleLine (ofString (toString n)) := by
  cases n with
  | ofNat n => exact singleLine_nat n
  | negSucc n =>
    show SingleLine (ofString ("-" ++ toString (n + 1)))
    exact singleLine_ofString_append.mpr ⟨by decide, singleLine_nat _⟩

/-- Zeros in front of some digits end no line. -/
theorem singleLine_zeroPad (width : Nat) {digits : List Char}
    (h : ∀ c ∈ digits, endsLine (.char c) = false) :
    SingleLine (ofString (zeroPad width digits)) := by
  rw [singleLine_ofString_iff, zeroPad, String.toList_ofList, List.forall_mem_append]
  refine ⟨fun c hc => ?_, h⟩
  rw [List.eq_of_mem_replicate hc]
  decide

theorem singleLine_hex (width n : Nat) : SingleLine (ofString (hex width n)) := by
  refine singleLine_zeroPad width fun c hc => ?_
  obtain ⟨d, hd, rfl⟩ := exists_digitChar_of_mem_toDigits (by decide) hc
  exact (endsLine_digitChar d hd).1

theorem singleLine_upperHex (width n : Nat) : SingleLine (ofString (upperHex width n)) := by
  refine singleLine_zeroPad width (List.forall_mem_map.mpr fun c hc => ?_)
  obtain ⟨d, hd, rfl⟩ := exists_digitChar_of_mem_toDigits (by decide) hc
  exact (endsLine_digitChar d hd).2

theorem singleLine_signedHex (n : Int) : SingleLine (ofString (signedHex n)) := by
  refine singleLine_ofString_append.mpr ⟨?_, singleLine_hex 0 _⟩
  split <;> decide

/-- A percentage is on one line. -/
theorem singleLine_percent (d : Double) : SingleLine (ofString d.percent) := by
  unfold Double.percent
  have hsign : SingleLine (ofString (if d.isNegative then "-" else "")) := by
    split <;> decide
  simp only
  -- no number at all, one that is too large, or one with digits
  split
  · decide
  · exact singleLine_ofString_append.mpr ⟨hsign, by decide⟩
  · exact singleLine_ofString_append.mpr
      ⟨singleLine_ofString_append.mpr ⟨hsign, singleLine_nat _⟩, by decide⟩

/-!
## Quoted bytes

A byte is quoted as itself only where it can be printed, and otherwise as an escape, which consists
of printable characters.
-/

theorem singleLine_join {parts : List String} (h : ∀ p ∈ parts, SingleLine (ofString p)) :
    SingleLine (ofString (String.join parts)) := by
  rw [singleLine_ofString_iff, String.toList_join, List.forall_mem_flatMap]
  exact fun p hp => singleLine_ofString_iff.mp (h p hp)

/-- The escape of a number is on one line. -/
theorem singleLine_numberEscape (code : Nat) : SingleLine (ofString (numberEscape code)) := by
  unfold numberEscape
  -- two, four or eight digits behind the mark
  split
  · exact singleLine_ofString_append.mpr ⟨by decide, singleLine_hex _ _⟩
  · split
    · exact singleLine_ofString_append.mpr ⟨by decide, singleLine_hex _ _⟩
    · exact singleLine_ofString_append.mpr ⟨by decide, singleLine_hex _ _⟩

theorem singleLine_toString {c : Char} (h : endsLine (.char c) = false) :
    SingleLine (ofString c.toString) := by
  rw [singleLine_ofString_iff, Char.toString_eq_singleton, String.toList_singleton]
  exact List.forall_mem_singleton.mpr h

/-- A character that is printed as it is ends no line; all others are escaped. -/
theorem singleLine_escape {mark : Char} {printed : Char → Bool}
    (hmark : endsLine (.char mark) = false)
    (hprinted : ∀ c, printed c = true → endsLine (.char c) = false) (c : CodePoint) :
    SingleLine (ofString (escape mark printed c)) := by
  cases c with
  | half place => exact singleLine_numberEscape _
  | char c =>
    rw [escape]
    -- the quotation mark and the backslash come first, then the four named escapes
    split
    · next hsame =>
      rw [Bool.or_eq_true, beq_iff_eq, beq_iff_eq] at hsame
      refine singleLine_ofString_append.mpr ⟨by decide, singleLine_toString ?_⟩
      rcases hsame with rfl | rfl
      · exact hmark
      · decide
    · split
      · decide
      · split
        · decide
        · split
          · decide
          · split
            · next hc => exact singleLine_toString (hprinted c hc)
            · exact singleLine_numberEscape _

theorem endsLine_of_printed {c : Char} (h : 0x20 ≤ c.toNat ∧ c.toNat < 0x7F) :
    endsLine (.char c) = false := by
  simp [endsLine, CodePoint.code]
  omega

/-- Quoted bytes are on one line, since what would end it is escaped. -/
theorem singleLine_quoteBytes (bs : List UInt8) : SingleLine (ofString (quoteBytes bs)) := by
  have hmark : ∀ content, endsLine (.char (quoteMark content)) = false := by
    intro content
    unfold quoteMark
    split <;> decide
  refine singleLine_ofString_append.mpr ⟨by decide, singleLine_ofString_append.mpr
    ⟨singleLine_ofString_append.mpr ⟨singleLine_toString (hmark _), singleLine_join ?_⟩,
      singleLine_toString (hmark _)⟩⟩
  exact List.forall_mem_map.mpr fun c _ =>
    singleLine_escape (hmark _) (fun _ hc => endsLine_of_printed (of_decide_eq_true hc)) c

/-!
## Lines

The lines are taken from the front, with the unfinished line kept in reverse. All that follows comes
from one equation: a text, a line feed and another text have the lines of the two texts one behind
the other.
-/

/-- A character that ends no line is added to the line. -/
theorem linesFrom_cons {c : CodePoint} (h : endsLine c = false) (line rest : Text) :
    linesFrom line (c :: rest) = linesFrom (c :: line) rest := by
  rw [linesFrom, if_neg (by rw [h]; exact Bool.false_ne_true)]
  rintro rest rfl
  cases h

theorem linesFrom_newline (line rest : Text) :
    linesFrom line (.char '\n' :: rest) = line.reverse :: linesFrom [] rest := by
  rw [linesFrom, if_pos (by decide)]
  simp

/-- A carriage return and a line feed together end one line. -/
theorem linesFrom_return_newline (line rest : Text) :
    linesFrom line (.char '\r' :: .char '\n' :: rest) = line.reverse :: linesFrom [] rest := by
  rw [linesFrom]

/-- Any other character that ends a line does so by itself. -/
theorem linesFrom_end {c : CodePoint} (h : endsLine c = true) {line rest : Text}
    (hpair : ∀ more, c = .char '\r' → rest ≠ .char '\n' :: more) :
    linesFrom line (c :: rest) = line.reverse :: linesFrom [] rest := by
  rw [linesFrom, if_pos h]
  intro more hc hrest
  exact hpair more hc hrest

/-- What stands behind a line feed does not depend on what stands in front. -/
theorem linesFrom_append_newline (line front back : Text) :
    linesFrom line (front ++ .char '\n' :: back)
      = linesFrom line (front ++ [.char '\n']) ++ linesFrom [] back := by
  fun_induction linesFrom line front with
  -- nothing has been read of the line, or something has
  | case1 line hempty => simp [linesFrom_newline, linesFrom]
  | case2 line hline => simp [linesFrom_newline, linesFrom]
  | case3 line rest ih =>
    simp only [List.cons_append, linesFrom_return_newline, ih]
  | case4 line c rest hc hends ih =>
    cases rest with
    | nil =>
      -- the line feed may go together with a carriage return that the text ends with
      by_cases hreturn : c = .char '\r'
      · rw [hreturn]
        simp [linesFrom_return_newline, linesFrom]
      · have hpair : ∀ rest more : Text, c = .char '\r' → rest ≠ .char '\n' :: more :=
          fun _ _ h => absurd h hreturn
        simp [linesFrom_end hends (hpair _), linesFrom_newline, linesFrom]
    | cons d rest =>
      have hpair : ∀ back more : Text, c = .char '\r' →
          d :: (rest ++ .char '\n' :: back) ≠ .char '\n' :: more := by
        rintro back more rfl heq
        cases heq
        exact hc rest rfl rfl
      simp only [List.cons_append, linesFrom_end hends (hpair _)] at ih ⊢
      rw [ih]
  | case5 line c rest hc hends ih =>
    rw [Bool.not_eq_true] at hends
    simp only [List.cons_append, linesFrom_cons hends, ih]

theorem lines_append_newline (front back : Text) :
    lines (front ++ .char '\n' :: back) = lines (front ++ [.char '\n']) ++ lines back :=
  linesFrom_append_newline [] front back

/-- The characters of a text on one line are added to what the line has already. -/
theorem linesFrom_append_of_singleLine {text : Text} (h : SingleLine text) (line rest : Text) :
    linesFrom line (text ++ rest) = linesFrom (text.reverse ++ line) rest := by
  -- character by character, each of them in front of those that were read
  induction text generalizing line with
  | nil => rfl
  | cons c text ih =>
    obtain ⟨hc, htext⟩ := List.forall_mem_cons.mp h
    rw [List.cons_append, linesFrom_cons hc, ih htext, List.reverse_cons, List.append_assoc,
      List.singleton_append]

/-- A text on one line is its own line, if it is not empty. -/
theorem lines_of_singleLine {text : Text} (h : SingleLine text) (hne : text ≠ []) :
    lines text = [text] := by
  have hlines := linesFrom_append_of_singleLine h [] []
  rw [List.append_nil, List.append_nil, linesFrom,
    if_neg (by simpa using hne), List.reverse_reverse] at hlines
  exact hlines

/-- A text on one line and a line feed are that line, even if it is empty. -/
theorem lines_of_singleLine_newline {text : Text} (h : SingleLine text) :
    lines (text ++ [.char '\n']) = [text] := by
  rw [lines, linesFrom_append_of_singleLine h, linesFrom_newline, List.append_nil,
    List.reverse_reverse]
  rfl

theorem SingleLine.reverse {text : Text} (h : SingleLine text) : SingleLine text.reverse :=
  fun c hc => h c (List.mem_reverse.mp hc)

/-- Whatever a text is, its lines are on one line each. -/
theorem singleLine_of_mem_linesFrom {line text : Text} (hline : SingleLine line) {found : Text}
    (h : found ∈ linesFrom line text) : SingleLine found := by
  -- the unfinished line never holds a line end: only its other characters are added to it
  fun_induction linesFrom line text with
  | case1 => cases h
  | case2 line hne =>
    cases List.mem_singleton.mp h
    exact hline.reverse
  | case3 line rest ih =>
    rcases List.mem_cons.mp h with rfl | h
    · exact hline.reverse
    · exact ih (List.forall_mem_nil _) h
  | case4 line c rest hc hends ih =>
    rcases List.mem_cons.mp h with rfl | h
    · exact hline.reverse
    · exact ih (List.forall_mem_nil _) h
  | case5 line c rest hc hends ih =>
    rw [Bool.not_eq_true] at hends
    exact ih (List.forall_mem_cons.mpr ⟨hends, hline⟩) h

theorem singleLine_of_mem_lines {text found : Text} (h : found ∈ lines text) : SingleLine found :=
  singleLine_of_mem_linesFrom (List.forall_mem_nil _) h

/-!
## Joined texts

Texts that are joined by line feeds come back as the lines, if no text has a line end of its own in
it.
-/

/-- The lines of some texts with a line feed between each two of them. -/
def joinedLines : List Text → List Text
  | [] => []
  | [last] => lines last
  | text :: next :: rest => lines (text ++ [.char '\n']) ++ joinedLines (next :: rest)

/-- The lines of joined texts are those of each text with its line feed, and of the last one
without. -/
theorem lines_intercalate (texts : List Text) :
    lines (intercalate "\n" texts) = joinedLines texts := by
  have hnewline : ofString "\n" = [.char '\n'] := rfl
  rw [intercalate, hnewline]
  -- the last text has no line feed behind it, so that it is a case of its own
  induction texts with
  | nil => rfl
  | cons text rest ih =>
    cases rest with
    | nil => rw [List.intercalate_singleton, joinedLines]
    | cons next rest =>
      rw [List.intercalate_cons_cons, List.append_assoc, List.singleton_append,
        lines_append_newline, joinedLines, ih]

/-- Texts on one line each, of which none is empty, are the lines that they are joined to. -/
theorem joinedLines_eq_self {texts : List Text} (h : ∀ t ∈ texts, SingleLine t ∧ t ≠ []) :
    joinedLines texts = texts := by
  -- text by text, the last of them apart
  induction texts with
  | nil => rfl
  | cons text rest ih =>
    obtain ⟨⟨hsingle, hne⟩, hrest⟩ := List.forall_mem_cons.mp h
    cases rest with
    | nil => exact lines_of_singleLine hsingle hne
    | cons next rest =>
      rw [joinedLines, lines_of_singleLine_newline hsingle, ih hrest, List.singleton_append]

theorem singleLine_of_mem_joinedLines {texts : List Text} {found : Text}
    (h : found ∈ joinedLines texts) : SingleLine found := by
  rw [← lines_intercalate] at h
  exact singleLine_of_mem_lines h

/-- Texts on one line each in front of others are lines of their own. -/
theorem joinedLines_append {front back : List Text} (hfront : ∀ t ∈ front, SingleLine t)
    (hback : back ≠ []) : joinedLines (front ++ back) = front ++ joinedLines back := by
  -- on the texts in front, each of which has a text behind it
  induction front with
  | nil => rfl
  | cons text rest ih =>
    obtain ⟨hsingle, hrest⟩ := List.forall_mem_cons.mp hfront
    obtain ⟨next, more, hmore⟩ :=
      List.exists_cons_of_ne_nil (List.append_ne_nil_of_right_ne_nil rest hback)
    rw [List.cons_append, hmore, joinedLines, lines_of_singleLine_newline hsingle, ← hmore,
      ih hrest, List.singleton_append, List.cons_append]

end Provenance.Text
