import Provenance.Proofs.Reading
import Provenance.Text.Ascii

/-!
# Strings of a file and of its tables

A string is the longest run of bytes from its place on that has no NUL in it. It ends before its
limit and with the file at the latest.

* `Bytes.LongestRun` — such a run; `Bytes.longestRun_nulFrom` says that the scan for a NUL stops
  where it ends.
* `Bytes.stringEnd` — the bound that a limit sets. For an offset that is negative, or not in front
  of the bound, there is nothing to read (`Bytes.cString_outside`).

A string table is a part of a file. A string in it can be read with the table cut out first, or in
place with the end of the table as its bound; `Bytes.cString_extract` says that both are the same.
What is read is told by `Bytes.cString_eq`: all bytes up to the bound, cut at the first NUL.
-/

namespace Provenance.Bytes

/-!
## Runs without a NUL

The scan for a NUL goes on from byte to byte, up to a bound. It stops at the end of the longest run
without one, by induction on how many bytes are left.
-/

/-- None of the bytes from one place up to another is a NUL. -/
def NulFree (data : Bytes) (start stop : Nat) : Prop :=
  ∀ place, start ≤ place → place < stop → data[place]? ≠ some 0

/-- The bytes from `start` up to `stop` are the longest run without a NUL that starts there and ends
at `last` or in front of it. -/
structure LongestRun (data : Bytes) (start stop last : Nat) : Prop where
  start_le : start ≤ stop
  le_last : stop ≤ last
  nulFree : data.NulFree start stop
  longest : ∀ other ≤ last, data.NulFree start other → other ≤ stop

variable {data : Bytes} {start stop last : Nat}

/-- At the bound a run is empty. -/
theorem LongestRun.bound (data : Bytes) (start : Nat) : data.LongestRun start start start where
  start_le := Nat.le_refl start
  le_last := Nat.le_refl start
  nulFree := fun _ hle hlt => absurd hlt (Nat.not_lt.mpr hle)
  longest := fun _ hle _ => hle

/-- At a NUL a run is empty, for a longer one would hold the NUL. -/
theorem LongestRun.nul (h : data[start]? = some 0) (hlast : start ≤ last) :
    data.LongestRun start start last where
  start_le := Nat.le_refl start
  le_last := hlast
  nulFree := fun _ hle hlt => absurd hlt (Nat.not_lt.mpr hle)
  longest := fun _ _ hfree => Nat.le_of_not_lt fun hlt => hfree start (Nat.le_refl start) hlt h

/-- A byte other than NUL goes in front of the run behind it. -/
theorem LongestRun.cons (h : data[start]? ≠ some 0)
    (hrest : data.LongestRun (start + 1) stop last) : data.LongestRun start stop last where
  start_le := Nat.le_of_succ_le hrest.start_le
  le_last := hrest.le_last
  nulFree := by
    intro place hle hlt
    -- the first byte is no NUL, and those behind it are not by assumption
    obtain rfl | hbehind := Nat.eq_or_lt_of_le hle
    · exact h
    · exact hrest.nulFree place hbehind hlt
  longest := by
    intro other hother hfree
    refine hrest.longest other hother fun place hle hlt => ?_
    exact hfree place (Nat.le_of_succ_le hle) hlt

/-- The scan for a NUL stops where the longest run without one ends. -/
theorem longestRun_nulFrom (data : Bytes) (count start : Nat) :
    data.LongestRun start (data.nulFrom count start) (start + count) := by
  -- the induction is on the bytes that are left up to the bound
  induction count generalizing start with
  | zero => exact .bound data start
  | succ count ih =>
    rw [nulFrom]
    split
    · next hnul => exact .nul hnul (Nat.le_add_right start (count + 1))
    · next hbyte =>
      -- one place on, one byte less is left up to the same bound
      have hrest := ih (start + 1)
      rw [Nat.add_assoc, Nat.add_comm 1 count] at hrest
      exact hrest.cons hbyte

theorem nulFrom_le (data : Bytes) (count start : Nat) :
    data.nulFrom count start ≤ start + count :=
  (data.longestRun_nulFrom count start).le_last

theorem le_nulFrom (data : Bytes) (count start : Nat) : start ≤ data.nulFrom count start :=
  (data.longestRun_nulFrom count start).start_le

/-!
## Where a string may be

An offset in front of the data or past its end is outside, and there is no string. Elsewhere the
string is the run that starts at the offset.
-/

/-- Where a string ends at the latest: at its limit, and with the data. -/
def stringEnd (data : Bytes) : Option Int → Int
  | none => data.size
  | some limit => min limit data.size

/-- No string ends behind the data. -/
theorem stringEnd_le_size (data : Bytes) (limit : Option Int) :
    (data.stringEnd limit).toNat ≤ data.size := by
  cases limit with
  | none => exact Nat.le_refl data.size
  | some limit =>
    rw [stringEnd]
    omega

/-- In front of the data and behind the end of the string there is nothing to read. -/
theorem cString_outside (data : Bytes) {offset : Int} {limit : Option Int}
    (h : offset < 0 ∨ data.stringEnd limit ≤ offset) : data.cString offset limit = "" := by
  have hempty : data.cStringBytes offset limit = [] := by
    cases limit with
    | none => exact if_pos h
    | some limit => exact if_pos h
  rw [cString, hempty]
  rfl

/-- Everywhere else a string is the text of the longest run without a NUL. -/
theorem exists_longestRun_cString (data : Bytes) {offset : Int} {limit : Option Int}
    (hstart : 0 ≤ offset) (hend : offset < data.stringEnd limit) :
    ∃ stop, data.LongestRun offset.toNat stop (data.stringEnd limit).toNat
      ∧ data.cString offset limit = asciiText (data.extract offset.toNat stop).toList := by
  -- the scan runs over the places up to the end, and the run it finds is what is decoded
  have hrun := data.longestRun_nulFrom (data.stringEnd limit - offset).toNat offset.toNat
  have hlast : offset.toNat + (data.stringEnd limit - offset).toNat
      = (data.stringEnd limit).toNat := by omega
  rw [hlast] at hrun
  have hinside : ¬ (offset < 0 ∨ data.stringEnd limit ≤ offset) := by omega
  have hbytes : data.cStringBytes offset limit
      = (data.extract offset.toNat
          (data.nulFrom (data.stringEnd limit - offset).toNat offset.toNat)).toList := by
    cases limit with
    | none => exact if_neg hinside
    | some limit => exact if_neg hinside
  exact ⟨_, hrun, congrArg asciiText hbytes⟩

/-! ## Strings of a table -/

/-- The first NUL of a part of the data is the first one from its place on. -/
theorem nulFrom_extract (data : Bytes) (start stop count place : Nat)
    (h : start + place + count ≤ min stop data.size) :
    start + nulFrom (data.extract start stop) count place = data.nulFrom count (start + place) := by
  -- both scans look at the same bytes, since the part reaches far enough
  induction count generalizing place with
  | zero => rfl
  | succ count ih =>
    have hget : (data.extract start stop)[place]? = data[start + place]? := by
      rw [Array.getElem?_extract, if_pos (by omega)]
    rw [nulFrom, nulFrom, hget]
    split
    · rfl
    · exact ih (place + 1) (by omega)

/-- A string of a table is read in place, up to the end of the table. -/
theorem cString_extract (data : Bytes) (start size place : Nat) :
    cString (data.extract start (start + size)) place none
      = data.cString (start + place) (some (start + size)) := by
  unfold cString cStringBytes
  congr 1
  have hsize : (data.extract start (start + size)).size = min (start + size) data.size - start :=
    Array.size_extract ..
  simp only [hsize]
  by_cases hend : min (start + size) data.size ≤ start + place
  · rw [if_pos (by omega), if_pos (by omega)]
  · rw [if_neg (by omega), if_neg (by omega)]
    -- both strings have the same number of bytes to end in
    have hcount : (((min (start + size) data.size - start : Nat) : Int) - place).toNat
        = min (start + size) data.size - (start + place) := by omega
    have hcount' : (min ((start : Int) + size) data.size - (start + place)).toNat
        = min (start + size) data.size - (start + place) := by omega
    have hplace : ((start : Int) + place).toNat = start + place := by omega
    have hnul := data.nulFrom_extract start (start + size)
      (min (start + size) data.size - (start + place)) place (by omega)
    rw [hcount, hcount', hplace, Int.toNat_natCast, ← hnul, data.extract_extract_of_le]
    have hle := nulFrom_le (data.extract start (start + size))
      (min (start + size) data.size - (start + place)) place
    omega

/-- A part of the data that is not empty is its first byte and the rest. -/
theorem extract_succ (data : Bytes) {start stop : Nat} (hstart : start < data.size)
    (h : start < stop) :
    (data.extract start stop).toList = data[start] :: (data.extract (start + 1) stop).toList := by
  have hlist : start < data.toList.length := hstart
  have hstop : stop - start = stop - (start + 1) + 1 := by omega
  simp only [Array.toList_extract, List.extract_eq_take_drop]
  rw [List.drop_eq_getElem_cons hlist, hstop, List.take_succ_cons, Array.getElem_toList]

/-- Up to the first NUL stand the bytes that are not NUL. -/
theorem extract_nulFrom (data : Bytes) (count start : Nat) (h : start + count ≤ data.size) :
    (data.extract start (data.nulFrom count start)).toList
      = (data.extract start (start + count)).toList.takeWhile (· ≠ 0) := by
  -- either the scan stops at the first byte, or that byte is kept
  induction count generalizing start with
  | zero =>
    rw [nulFrom, Nat.add_zero, Array.extract_empty_of_stop_le_start (Nat.le_refl _)]
    rfl
  | succ count ih =>
    have hstart : start < data.size := by omega
    have hget : data[start]? = some data[start] := Array.getElem?_eq_getElem hstart
    have hbytes : (data.extract start (start + (count + 1))).toList
        = data[start] :: (data.extract (start + 1) (start + (count + 1))).toList :=
      extract_succ data hstart (by omega)
    rw [nulFrom, hget, hbytes, List.takeWhile_cons]
    by_cases hzero : data[start] = 0
    · rw [if_pos (congrArg some hzero), Array.extract_empty_of_stop_le_start (Nat.le_refl _)]
      simp [hzero]
    · -- the byte stays, and the rest is looked at from the next place on
      have hnul : start + 1 ≤ data.nulFrom count (start + 1) := data.le_nulFrom count (start + 1)
      have hrest := ih (start + 1) (by omega)
      have hplace : start + 1 + count = start + (count + 1) := by omega
      rw [hplace] at hrest
      rw [if_neg (fun heq => hzero (Option.some.inj heq)), extract_succ data hstart hnul, hrest,
        if_pos (by simpa using hzero)]

/-- A part that would reach beyond the data ends with it. -/
theorem extract_min_size (data : Bytes) (start stop : Nat) :
    (data.extract start (min stop data.size)).toList = (data.extract start stop).toList := by
  simp only [Array.toList_extract, List.extract_eq_take_drop, List.take_eq_take_iff,
    List.length_drop, Array.length_toList]
  omega

/-- The bytes of a string are those from its place on, cut at the first NUL, at the bound and at the
end of the file; there are none for a place at or behind the bound or the end. -/
theorem cString_eq (data : Bytes) (start stop : Nat) :
    data.cString start (some stop)
      = asciiText ((data.extract start stop).toList.takeWhile (· ≠ 0)) := by
  unfold cString cStringBytes
  congr 1
  simp only
  -- a stop in front of the start leaves nothing, and so does a start past the end
  by_cases hend : min stop data.size ≤ start
  · rw [if_pos (by omega)]
    have hempty : (data.extract start stop).toList = [] := by
      rw [Array.toList_eq_nil_iff, Array.extract_eq_empty_iff]
      omega
    rw [hempty]
    rfl
  · rw [if_neg (by omega)]
    have hcount : (min (stop : Int) data.size - start).toNat = min stop data.size - start := by
      omega
    have hstop : start + (min stop data.size - start) = min stop data.size := by omega
    rw [hcount, Int.toNat_natCast, extract_nulFrom _ _ _ (by omega), hstop]
    rw [extract_min_size]

/-- In the front of a file a string is cut off where the front ends. -/
theorem asciiText_front (data : Bytes) (start stop n : Nat) :
    (asciiText (((data.extract 0 n).extract start stop).toList.takeWhile (· ≠ 0))).toList
      = (asciiText ((data.extract start stop).toList.takeWhile (· ≠ 0))).toList.take
          (n - start) := by
  have hbytes : ((data.extract 0 n).extract start stop).toList
      = (data.extract start stop).toList.take (n - start) := by
    -- cutting at the front of the file and at the bound is cutting at the one that comes first
    rw [Array.extract_extract]
    simp only [Array.toList_extract, List.extract_eq_take_drop, List.take_take, Nat.zero_add]
    congr 1
    omega
  simp only [asciiText, String.toList_ofList]
  rw [hbytes, ← List.take_takeWhile, List.map_take]

/-- Without a bound a string ends with the file at the latest. -/
theorem cString_none_eq (data : Bytes) (start : Nat) :
    data.cString start none
      = asciiText ((data.extract start data.size).toList.takeWhile (· ≠ 0)) := by
  rw [← data.cString_eq start data.size, cString, cString, cStringBytes, cStringBytes]
  simp only [Int.min_self]

end Provenance.Bytes
