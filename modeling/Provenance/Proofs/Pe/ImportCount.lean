import Mathlib.Algebra.BigOperators.Group.Finset.Piecewise
import Mathlib.Algebra.GroupWithZero.Nat
import Mathlib.Algebra.Order.BigOperators.Group.Finset
import Mathlib.Order.Interval.Finset.Nat
import Provenance.Proofs.Pe.Imports

/-!
# How much an image can import

How many functions an image imports, compared with its size. Each descriptor has a lookup table, and
the number of descriptors as well as that of the entries of a table is limited, by the reader and by
the end of the file. The tables of several descriptors may share bytes of the file, though, and the
limits do not prevent that.

* `Stretch` — bytes one behind the other; `sum_length_le` bounds the length of several stretches by
  counting how many of them have a byte in common.
* `LookupTable` — the bytes of the lookup table of a descriptor.
* `Describes.exists_lookupTable` — a library has no more functions than its table has entries.

Main results:

* `imported_symbols_bounded` — how many functions there are at most, and how many if the tables do
  not share too much.
* `sharedLookup_imports_more` — an image that imports more functions than it has bytes.
-/

namespace Provenance.Pe

/-!
## Stretches of a file

A table takes a stretch of the file. If each place is in a limited number of stretches, their
lengths together are at most so many times the length of the file: the pairs of a stretch and a
place in it are counted from both sides.
-/

/-- Some bytes of a file, one behind the other. -/
structure Stretch where
  /-- The place of the first byte. -/
  start : Nat
  /-- How many bytes there are. -/
  length : Nat
  deriving DecidableEq, Repr

/-- A place is one of a stretch. -/
def Stretch.Holds (s : Stretch) (place : Nat) : Prop :=
  s.start ≤ place ∧ place < s.start + s.length

instance (s : Stretch) (place : Nat) : Decidable (s.Holds place) := by
  unfold Stretch.Holds
  infer_instance

/-- The places of a stretch within the first `size` places are as many as it is long. -/
theorem Stretch.sum_holds (s : Stretch) {size : Nat} (h : s.start + s.length ≤ size) :
    ∑ place ∈ Finset.range size, (if s.Holds place then 1 else 0) = s.length := by
  rw [← Finset.card_filter]
  have hplaces : (Finset.range size).filter s.Holds = Finset.Ico s.start (s.start + s.length) := by
    ext place
    rw [Finset.mem_filter, Finset.mem_range, Finset.mem_Ico, Holds]
    omega
  rw [hplaces, Nat.card_Ico, Nat.add_sub_cancel_left]

/-- The bytes of several stretches, counted one stretch after the other or one place after the
other. -/
theorem sum_length_eq {stretches : List Stretch} {size : Nat}
    (h : ∀ s ∈ stretches, s.start + s.length ≤ size) :
    (stretches.map (·.length)).sum
      = ∑ place ∈ Finset.range size, stretches.countP (·.Holds place) := by
  induction stretches with
  | nil => simp
  | cons s rest ih =>
    -- one stretch more adds one to the count of each of its places
    rw [List.forall_mem_cons] at h
    simp only [List.map_cons, List.sum_cons, List.countP_cons, Finset.sum_add_distrib,
      decide_eq_true_eq, s.sum_holds h.1, ih h.2]
    exact Nat.add_comm _ _

/-- If no place is in more than `count` stretches of a file, they are not longer than `count`
files. -/
theorem sum_length_le {stretches : List Stretch} {size count : Nat}
    (h : ∀ s ∈ stretches, s.start + s.length ≤ size)
    (hshared : ∀ place, stretches.countP (·.Holds place) ≤ count) :
    (stretches.map (·.length)).sum ≤ count * size := by
  calc (stretches.map (·.length)).sum
      = ∑ place ∈ Finset.range size, stretches.countP (·.Holds place) := sum_length_eq h
    _ ≤ ∑ _place ∈ Finset.range size, count := Finset.sum_le_sum fun place _ => hshared place
    _ = count * size := by rw [Finset.sum_const, Finset.card_range, Nat.nsmul_eq_mul, Nat.mul_comm]

/-! ## Tables within the file -/

/-- A table whose entries lie in the file ends in the file. -/
theorem end_le_of_listed {α : Type} {entryAt? : Nat → Option α} {Ends : α → Prop}
    {start width limit size : Nat} {found : List α} (h : Listed entryAt? Ends limit found)
    (hlimit : 0 < limit)
    (hwithin : ∀ i a, entryAt? i = some a → start + width * i + width ≤ size) :
    start + width * found.length ≤ size := by
  rcases Nat.eq_zero_or_pos found.length with hempty | hpos
  · -- nothing is listed, so that the entry that ends the table is the first one
    obtain ⟨a, ha, -⟩ := h.ended (by omega)
    have hend := hwithin _ a ha
    omega
  · obtain ⟨ha, -⟩ := h.each (found.length - 1) _ (List.getElem?_eq_getElem (by omega))
    have hend := hwithin _ _ ha
    rwa [Nat.add_assoc, ← Nat.mul_succ, Nat.succ_eq_add_one, Nat.sub_add_cancel hpos] at hend

section Tables

variable {img : Image}

theorem le_size_of_descriptorsFrom {data : Bytes} {table i : Nat} {d : ImportDescriptor}
    (h : descriptorsFrom data table i = some d) : table + 20 * i + 20 ≤ data.size := by
  rw [descriptorsFrom, descriptorAt?] at h
  split at h
  · next hsize => exact hsize
  · cases h

theorem le_size_of_entriesFrom {table i entry : Nat} (h : entriesFrom img table i = some entry) :
    table + entryWidth img * i + entryWidth img ≤ img.data.size := by
  rw [entriesFrom, entryAt?] at h
  split at h
  · next hsize => exact hsize
  · cases h

/-- The bytes of the entries in the lookup table of a descriptor, without the one that ends it. -/
structure LookupTable (img : Image) (d : ImportDescriptor) (table : Stretch) : Prop where
  mapped : img.Mapped d.namesTable table.start
  listed : ∃ entries, Listed (entriesFrom img table.start) (· = 0) 65536 entries
    ∧ table.length = entryWidth img * entries.length

theorem LookupTable.end_le {d : ImportDescriptor} {table : Stretch}
    (h : LookupTable img d table) : table.start + table.length ≤ img.data.size := by
  obtain ⟨entries, hlisted, hlength⟩ := h.listed
  rw [hlength]
  exact end_le_of_listed hlisted (by decide) fun _ _ => le_size_of_entriesFrom

/-- Entries that import by ordinal name no function, so that there can be more entries than
functions but not less. -/
theorem Describes.exists_lookupTable {d : ImportDescriptor} {found : Import}
    (h : Describes img d found) :
    ∃ table, LookupTable img d table
      ∧ entryWidth img * found.functions.length ≤ table.length := by
  obtain ⟨table, entries, hmapped, hlisted, hnames⟩ := h.functions
  refine ⟨⟨table, entryWidth img * entries.length⟩, ⟨hmapped, ⟨entries, hlisted, rfl⟩⟩, ?_⟩
  have hfew : found.functions.length ≤ entries.length := by
    rw [← hnames.length_eq]
    exact List.length_filter_le ..
  exact Nat.mul_le_mul_left _ hfew

/-- The libraries that the reader finds are those of the descriptors. -/
theorem exists_descriptors (hparsed : img.Parsed) {found : List Import}
    (h : img.imports = .ok found) :
    ∃ descriptors, img.importDescriptors = .ok descriptors
      ∧ List.Forall₂ (Describes img) descriptors found
      ∧ descriptors.length ≤ 4096 ∧ 20 * descriptors.length ≤ img.data.size := by
  rw [Image.importDescriptors, mapDescriptors_eq]
  cases (imports_eq_ok_iff hparsed).mp h with
  | absent haddress =>
    rw [haddress]
    exact ⟨[], rfl, .nil, by decide, by simp⟩
  -- the walk keeps every descriptor, since there is nothing to be read that could fail
  | @present address table descriptors _ haddress hmapped hlisted hdescribed =>
    simp only [haddress, Image.fileOffset?_eq_some_iff.mpr hmapped]
    have hwalk : img.walkDescriptors .ok 4096 table = .ok descriptors := by
      refine walkDescriptors_eq_ok_iff.mpr ⟨descriptors, hlisted, ?_⟩
      rw [List.filter_true]
      exact List.forall₂_same.mpr fun _ _ => rfl
    have hend := end_le_of_listed hlisted (by decide) fun _ _ => le_size_of_descriptorsFrom
    exact ⟨descriptors, hwalk, hdescribed, hlisted.bounded, by omega⟩

/-- The descriptors side by side with their lookup tables, which are long enough for the functions
of all libraries. -/
theorem exists_lookupTables {descriptors : List ImportDescriptor} {found : List Import}
    (h : List.Forall₂ (Describes img) descriptors found) :
    ∃ tables, List.Forall₂ (LookupTable img) descriptors tables
      ∧ entryWidth img * (found.map (·.functions.length)).sum ≤ (tables.map (·.length)).sum := by
  -- the induction is on the descriptors side by side with what they import
  induction h with
  | nil => exact ⟨[], .nil, Nat.le_refl _⟩
  | @cons d i descriptors found hfirst _ ih =>
    obtain ⟨table, htable, hfew⟩ := hfirst.exists_lookupTable
    obtain ⟨tables, htables, hrest⟩ := ih
    refine ⟨table :: tables, .cons htable htables, ?_⟩
    rw [List.map_cons, List.sum_cons, List.map_cons, List.sum_cons, Nat.mul_add]
    exact Nat.add_le_add hfew hrest

theorem length_symbols (found : List Import) :
    (found.flatMap fun i => i.functions.map fun f => f ++ ":" ++ i.library).length
      = (found.map (·.functions.length)).sum := by
  simp only [List.length_flatMap, List.length_map]

/-- No lookup table has more entries than the limit, nor more than fit in the file. -/
theorem LookupTable.length_le_mul {d : ImportDescriptor} {table : Stretch}
    (h : LookupTable img d table) :
    table.length ≤ entryWidth img * min 65536 (img.data.size / entryWidth img) := by
  obtain ⟨entries, hlisted, hlength⟩ := h.listed
  have hend := h.end_le
  have hpos : 0 < entryWidth img := by
    rcases entryWidth_eq img with hwidth | hwidth <;> omega
  rw [hlength] at hend ⊢
  refine Nat.mul_le_mul_left _ (Nat.le_min.mpr ⟨hlisted.bounded, ?_⟩)
  rw [Nat.le_div_iff_mul_le hpos, Nat.mul_comm]
  omega

end Tables

/-- An image that imports functions has a lookup table for each of its descriptors, and there are
no more functions than entries in all tables together. The number of descriptors and that of the
entries of a table are limited, by the reader and by the size of the file. All tables lie in the
file, so that there are more entries than bytes only if tables share bytes: where no byte is in
more of them than an entry is wide, there are no more functions than the file has bytes. -/
theorem imported_symbols_bounded {data : Bytes} {img : Image} {symbols : List String}
    (h : Image.ofBytes data = .ok img) (hsymbols : img.importedSymbols = .ok symbols) :
    ∃ descriptors tables, img.importDescriptors = .ok descriptors
      ∧ List.Forall₂ (LookupTable img) descriptors tables
      ∧ descriptors.length ≤ min 4096 (data.size / 20)
      ∧ symbols.length ≤ descriptors.length * min 65536 (data.size / entryWidth img)
      ∧ (∀ count, (∀ place, tables.countP (·.Holds place) ≤ count) →
          entryWidth img * symbols.length ≤ count * data.size)
      ∧ ((∀ place, tables.countP (·.Holds place) ≤ entryWidth img) →
          symbols.length ≤ data.size) := by
  obtain ⟨hdata, hparsed, -⟩ := Image.parsed_of_ofBytes h
  rw [← hdata]
  obtain ⟨found, hfound, rfl⟩ := map_eq_ok_iff.mp hsymbols
  obtain ⟨descriptors, hdescriptors, hdescribed, hlimit, hsize⟩ :=
    exists_descriptors hparsed hfound
  obtain ⟨tables, htables, hfew⟩ := exists_lookupTables hdescribed
  have hpos : 0 < entryWidth img := by
    rcases entryWidth_eq img with hwidth | hwidth <;> omega
  -- the bytes of all tables are counted once for each table that they are in
  have hshared : ∀ count, (∀ place, tables.countP (·.Holds place) ≤ count) →
      entryWidth img * (found.map (·.functions.length)).sum ≤ count * img.data.size := by
    intro count hcount
    refine Nat.le_trans hfew (sum_length_le ?_ hcount)
    -- a table ends in the file, whichever descriptor it is of
    intro table htable
    obtain ⟨d, hd⟩ := exists_of_forall₂_of_mem htables.flip htable
    exact hd.end_le
  refine ⟨descriptors, tables, hdescriptors, htables, Nat.le_min.mpr ⟨hlimit, by omega⟩, ?_, ?_, ?_⟩
  · -- each table is as long as the limits allow at most
    have hlong : ∀ length ∈ tables.map (·.length),
        length ≤ entryWidth img * min 65536 (img.data.size / entryWidth img) := by
      intro length hlength
      obtain ⟨table, htable, rfl⟩ := List.mem_map.mp hlength
      obtain ⟨d, hd⟩ := exists_of_forall₂_of_mem htables.flip htable
      exact hd.length_le_mul
    rw [length_symbols]
    refine Nat.le_of_mul_le_mul_left (Nat.le_trans hfew ?_) hpos
    have hsum := List.sum_le_card_nsmul _ _ hlong
    rwa [Nat.nsmul_eq_mul, List.length_map, ← htables.length_eq, Nat.mul_left_comm] at hsum
  · intro count hcount
    rw [length_symbols]
    exact hshared count hcount
  -- every function has an entry, and no place counts for more than the width of one
  · intro hcount
    rw [length_symbols]
    exact Nat.le_of_mul_le_mul_left (hshared _ hcount) hpos

/-- One descriptor cannot share its table, and the one function it imports is within the bounds. -/
theorem smallImage_symbols_bounded :
    ∃ img symbols, Image.ofBytes smallImage = .ok img ∧ img.importedSymbols = .ok symbols
      ∧ symbols = ["f:a"] ∧ symbols.length ≤ smallImage.size := by
  have hrun : (Image.ofBytes smallImage).toOption.any (fun img =>
      img.importedSymbols.toOption.any (· == ["f:a"])
        && img.importDescriptors.toOption.any (·.length == 1)) = true := by
    decide +kernel
  obtain ⟨img, hread, hfound⟩ := exists_ok_of_any hrun
  obtain ⟨hsymbols, hdescriptors⟩ := Bool.and_eq_true_iff.mp hfound
  obtain ⟨symbols, hsymbols, hnames⟩ := exists_ok_of_any hsymbols
  obtain ⟨descriptors, hdescriptors, hone⟩ := exists_ok_of_any hdescriptors
  obtain ⟨descriptors', tables, hdescriptors', htables, -, -, -, hbounded⟩ :=
    imported_symbols_bounded hread hsymbols
  cases hdescriptors.symm.trans hdescriptors'
  refine ⟨img, symbols, hread, hsymbols, beq_iff_eq.mp hnames, hbounded fun place => ?_⟩
  -- one table holds each place once at most
  have hcount := List.countP_le_length (p := (·.Holds place)) (l := tables)
  rw [← htables.length_eq, beq_iff_eq.mp hone] at hcount
  rcases entryWidth_eq img with hwidth | hwidth <;> omega

/-!
## A shared table

Nothing keeps two descriptors from naming the same lookup table, and then its entries count for each
of them.
-/

theorem forall₂_replicate {α β : Type} {R : α → β → Prop} {a : α} {b : β} (h : R a b)
    (count : Nat) : List.Forall₂ R (List.replicate count a) (List.replicate count b) := by
  induction count with
  | zero => exact .nil
  | succ count ih => exact .cons h ih

/-- A table of equal entries, with an entry behind them that ends it. -/
theorem listed_replicate {α : Type} {entryAt? : Nat → Option α} {Ends : α → Prop}
    {limit count : Nat} {a b : α} (hlimit : count ≤ limit)
    (heach : ∀ i < count, entryAt? i = some a) (hgo : ¬ Ends a) (hend : entryAt? count = some b)
    (hends : Ends b) : Listed entryAt? Ends limit (List.replicate count a) where
  bounded := by rwa [List.length_replicate]
  each i c hc := by
    rw [List.getElem?_replicate] at hc
    split at hc
    · next hi =>
      cases hc
      exact ⟨heach i hi, hgo⟩
    · cases hc
  ended _ := by
    rw [List.length_replicate]
    exact ⟨b, hend, hends⟩

/-- An image with ten descriptors that have the same lookup table. The descriptors are themselves
the entries of the table: every word of them is the address of the first descriptor. -/
def sharedLookup : Bytes :=
  let zeros := fun n => List.replicate n (0 : UInt8)
  let headers := [0x4D, 0x5A] ++ zeros 58 ++ [64, 0, 0, 0] ++ signature
    ++ [0x4C, 1, 1, 0] ++ zeros 12 ++ [112, 0, 0, 0]
    ++ [0x0B, 1] ++ zeros 90 ++ [2, 0, 0, 0]
    ++ zeros 8 ++ [240, 0, 0, 0, 220, 0, 0, 0]
    ++ zeros 12 ++ [240, 0, 0, 0, 220, 0, 0, 0, 240, 0, 0, 0] ++ zeros 16
  (headers ++ (List.replicate 50 [240, 0, 0, 0]).flatten ++ zeros 20).toArray

/-- The descriptors take 200 bytes behind the headers, and the one that ends the table 20. -/
theorem sharedLookup_size : sharedLookup.size = 460 := by
  decide +kernel

/-- The words of the descriptors are the address of the first one, and those behind them zero. -/
theorem sharedLookup_words :
    (∀ i < 50, sharedLookup.number .little (240 + 4 * i) 4 = 240)
      ∧ ∀ i < 5, sharedLookup.number .little (440 + 4 * i) 4 = 0 := by
  have hheld : (∀ i < 50, sharedLookup.HoldsAt (240 + 4 * i) [240, 0, 0, 0])
      ∧ ∀ i < 5, sharedLookup.HoldsAt (440 + 4 * i) [0, 0, 0, 0] := by
    decide +kernel
  constructor
  · intro i hi
    have hword := hheld.1 i hi
    exact (Bytes.number_eq_iff_holdsAt hword.1 (by decide)).mpr hword
  · intro i hi
    have hword := hheld.2 i hi
    exact (Bytes.number_eq_iff_holdsAt hword.1 (by decide)).mpr hword

/-- The descriptor that the first words of the table are. -/
def sharedDescriptor : ImportDescriptor := ⟨240, 240, 240, 240, 240⟩

/-- The ten descriptors are listed. -/
theorem sharedLookup_descriptors :
    Listed (descriptorsFrom sharedLookup 240) ImportDescriptor.IsTerminator 4096
      (List.replicate 10 sharedDescriptor) := by
  obtain ⟨hwords, hzeros⟩ := sharedLookup_words
  -- a descriptor is five words, and the one that ends the table is behind the ten
  -- what is behind them is the descriptor of zeros, which ends the table
  refine listed_replicate (by decide) (fun i hi => ?_) (by decide) (b := ⟨0, 0, 0, 0, 0⟩) ?_
    (by decide)
  · have hword : ∀ j < 5, (sharedLookup.number .little (240 + 20 * i + 4 * j) 4 : Int) = 240 := by
      intro j hj
      have hplace : 240 + 20 * i + 4 * j = 240 + 4 * (5 * i + j) := by omega
      rw [hplace, hwords (5 * i + j) (by omega)]
      rfl
    rw [descriptorsFrom, descriptorAt?, if_pos (by rw [sharedLookup_size]; omega), sharedDescriptor,
      Option.some.injEq, ImportDescriptor.mk.injEq]
    exact ⟨hword 0 (by decide), hword 1 (by decide), hword 2 (by decide), hword 3 (by decide),
      hword 4 (by decide)⟩
  · have hword : ∀ j < 5, (sharedLookup.number .little (440 + 4 * j) 4 : Int) = 0 := by
      intro j hj
      rw [hzeros j hj]
      rfl
    rw [descriptorsFrom, descriptorAt?, if_pos (by rw [sharedLookup_size]),
      Option.some.injEq, ImportDescriptor.mk.injEq]
    exact ⟨hword 0 (by decide), hword 1 (by decide), hword 2 (by decide), hword 3 (by decide),
      hword 4 (by decide)⟩

/-- As entries of a lookup table the words of the ten descriptors are listed too. -/
theorem sharedLookup_entries {img : Image} (hdata : img.data = sharedLookup)
    (hwidth : entryWidth img = 4) :
    Listed (entriesFrom img 240) (· = 0) 65536 (List.replicate 50 240) := by
  obtain ⟨hwords, hzeros⟩ := sharedLookup_words
  have hentry : ∀ i ≤ 50,
      entriesFrom img 240 i = some (sharedLookup.number .little (240 + 4 * i) 4) := by
    intro i hi
    rw [entriesFrom, entryAt?, hwidth, hdata, if_pos (by rw [sharedLookup_size]; omega)]
  refine listed_replicate (by decide) (fun i hi => ?_) (by decide) (b := 0) ?_ rfl
  · rw [hentry i (by omega), hwords i hi]
  · rw [hentry 50 (by decide)]
    exact congrArg some (hzeros 0 (by decide))

/-- Fifty entries are read for each of ten descriptors, from a file of less bytes. -/
theorem sharedLookup_imports_more :
    ∃ img symbols, Image.ofBytes sharedLookup = .ok img ∧ img.importedSymbols = .ok symbols
      ∧ sharedLookup.size = 460 ∧ symbols.length = 500 := by
  -- one section makes addresses and places the same
  obtain ⟨img, hread, hfound⟩ := exists_ok_of_any (x := Image.ofBytes sharedLookup)
    (p := fun img => decide (tableAddress? img = some 240 ∧ entryWidth img = 4
      ∧ img.fileOffset? 240 = some 240 ∧ img.fileOffset? 242 = some 242)) (by decide +kernel)
  obtain ⟨haddress, hwidth, htable, hname⟩ := of_decide_eq_true hfound
  obtain ⟨hdata, hparsed, -⟩ := Image.parsed_of_ofBytes hread
  have htable : img.Mapped 240 240 := Image.fileOffset?_eq_some_iff.mp htable
  have hname : img.Mapped 242 242 := Image.fileOffset?_eq_some_iff.mp hname
  -- what stands at the places of the names does not matter
  let library := img.data.cString 240 none
  let function := img.data.cString 242 none
  let found : Import := ⟨library, List.replicate 50 function⟩
  have hnamed : (List.replicate 50 240).filter (hasName img) = List.replicate 50 240 := by
    rw [List.filter_replicate, if_pos (by rw [hasName, hwidth]; decide)]
  have hdescribes : Describes img sharedDescriptor found := by
    refine ⟨⟨240, htable, rfl⟩, 240, _, htable, sharedLookup_entries hdata hwidth, ?_⟩
    rw [hnamed]
    exact forall₂_replicate ⟨242, hname, rfl⟩ 50
  have himports : img.imports = .ok (List.replicate 10 found) := by
    refine (imports_eq_ok_iff hparsed).mpr (.present haddress htable ?_
      (forall₂_replicate hdescribes 10))
    rw [hdata]
    exact sharedLookup_descriptors
  refine ⟨img, _, hread, map_eq_ok_iff.mpr ⟨_, himports, rfl⟩, sharedLookup_size, ?_⟩
  rw [length_symbols, List.map_replicate, List.sum_replicate]
  simp [found]

end Provenance.Pe
