import Provenance.Proofs.Pe.ImportTable

/-!
# Walks over the import table

The reader goes from entry to entry; here one walk is put against the table that it goes over. A
walk ends at an entry of zeros, or at its limit, and what it has listed is then in the order of the
table. A walk that fails has listed nothing, and there is one entry that it fails at: all entries
in front of that one are there, and none of them ends the table.

* `walkDescriptors_eq_ok_iff`, `namesFrom_eq_ok_iff` — a walk that succeeds has listed its table.
* `exists_of_walkDescriptors_eq_error`, `exists_of_namesFrom_eq_error` — one that fails has come to
  an entry that is not there, or that names something that is not.
-/

namespace Provenance.Pe

/-! ## Entries -/

section Entries

variable {img : Image}

/-- The reader reads the descriptor at a place, or fails if it is not there as a whole. -/
theorem ImportDescriptor.decode_natCast (data : Bytes) (place : Nat) :
    ImportDescriptor.decode data place =
      match descriptorAt? data place with
      | some d => .ok d
      | none => .error (.tooShort .importDescriptor data.size (place + 20 : Nat)) := by
  have hrecord : ImportDescriptor.codec.recordAt data place = {
      lookupTable := data.number .little place 4
      timeDateStamp := data.number .little (place + 4) 4
      forwarderChain := data.number .little (place + 8) 4
      name := data.number .little (place + 12) 4
      addressTable := data.number .little (place + 16) 4 } := by
    -- the five words of a descriptor, each the number at its own place
    simp only [Codec.recordAt, ImportDescriptor.codec, Layout.decode, List.drop_drop,
      ImportDescriptor.mk.injEq]
    exact ⟨Word.decode_drop_take .u32 .little data place 20 0 rfl (by decide),
      Word.decode_drop_take .u32 .little data place 20 4 rfl (by decide),
      Word.decode_drop_take .u32 .little data place 20 8 rfl (by decide),
      Word.decode_drop_take .u32 .little data place 20 12 rfl (by decide),
      Word.decode_drop_take .u32 .little data place 20 16 rfl (by decide)⟩
  have hsize : ImportDescriptor.codec.size = 20 := rfl
  rw [ImportDescriptor.decode, read_natCast, hrecord, hsize, descriptorAt?]
  by_cases h : place + 20 ≤ data.size
  · rw [if_pos h, if_pos h]
  · rw [if_neg h, if_neg h]
    rfl

theorem entryWidth_eq (img : Image) : entryWidth img = 4 ∨ entryWidth img = 8 := by
  unfold entryWidth
  split
  · exact .inr rfl
  · exact .inl rfl

theorem entryWord_width (img : Image) : img.entryWord.width = entryWidth img := by
  unfold Image.entryWord entryWidth
  split <;> rfl

theorem entryWord_unsigned (img : Image) : img.entryWord.signed = false := by
  unfold Image.entryWord
  split <;> rfl

/-- The reader reads the entry at a place. -/
theorem entryWord_read (img : Image) (place : Nat) :
    img.entryWord.read .little img.data place =
      match entryAt? img place with
      | some entry => .ok entry
      | none => .error (.of (entryWidth img) place img.data.size) := by
  rw [Word.read_natCast, entryWord_width, entryAt?]
  by_cases h : place + entryWidth img ≤ img.data.size
  · rw [if_pos h, if_pos h, Word.decode_of_unsigned (entryWord_unsigned img)]
    rfl
  · rw [if_neg h, if_neg h]

/-- An entry fits its width. -/
theorem entryAt?_lt {place entry : Nat} (h : entryAt? img place = some entry) :
    entry < byteSpan (entryWidth img) := by
  unfold entryAt? at h
  split at h
  next hsize =>
    cases h
    exact img.data.number_lt .little hsize
  next => cases h

/-- The top bit of an entry is set exactly when the entry is in the upper half of its range. -/
theorem hasName_iff {entry : Nat} (h : entry < byteSpan (entryWidth img)) :
    hasName img entry = true ↔ ¬ (img.entryWord.modulus : Int) ≤ 2 * (entry : Int) := by
  rw [Word.modulus, entryWord_width, hasName, Nat.testBit_eq_decide_div_mod_eq]
  -- in either width the top bit is the place of the highest power of two
  rcases entryWidth_eq img with hwidth | hwidth
  · rw [hwidth] at h ⊢
    simp [byteSpan] at h ⊢
    omega
  · rw [hwidth] at h ⊢
    simp [byteSpan] at h ⊢
    omega

/-- The lower 31 bits of an entry are an address, and two more bytes are a hint. -/
theorem nameAddress_eq (entry : Nat) :
    ((entry : Int) % 0x80000000 + 2) = (nameAddress entry : Nat) := by
  have hmask : entry &&& 0x7FFFFFFF = entry % 0x80000000 :=
    Nat.and_two_pow_sub_one_eq_mod entry 31
  rw [nameAddress, hmask]
  omega

end Entries

/-!
## Walks

A walk goes from entry to entry up to the one that ends the table. What it comes back with, or where
it stops, is told by the entries at their places, by induction on how many it may still look at.
-/

section Walks

variable {img : Image}

/-- A string is read at an address exactly when a name stands there. -/
theorem stringAt_eq_ok_iff (hparsed : img.Parsed) {address : Int} {name : String} :
    img.stringAt address = .ok name ↔ NameAt img address name := by
  unfold Image.stringAt
  constructor
  · intro h
    cases hoffset : img.fileOffset? address with
    | none =>
      rw [hoffset] at h
      cases h
    | some offset =>
      rw [hoffset] at h
      cases h
      obtain ⟨place, rfl, hmapped⟩ := Image.exists_mapped_of_fileOffset? hparsed hoffset
      exact ⟨place, hmapped, rfl⟩
  · rintro ⟨place, hmapped, rfl⟩
    rw [Image.fileOffset?_eq_some_iff.mpr hmapped]

/-- Where no string is read, the address lies nowhere in the file. -/
theorem unmapped_of_stringAt (hparsed : img.Parsed) {address : Int} {e : ImportError}
    (h : img.stringAt address = .error e) : Unmapped img address ∧ e.misread? = none := by
  unfold Image.stringAt at h
  cases hoffset : img.fileOffset? address with
  | none =>
    rw [hoffset] at h
    cases h
    exact ⟨(Image.fileOffset?_eq_none_iff hparsed).mp hoffset, rfl⟩
  | some offset =>
    rw [hoffset] at h
    cases h

/-- One step of the walk over a lookup table. -/
theorem namesFrom_succ (img : Image) (limit place : Nat) (done : List String) :
    img.namesFrom (limit + 1) place done =
      match entryAt? img place with
      | none => .error .lookupTableCutOff
      | some entry =>
        if entry = 0 then .ok done.reverse
        else if hasName img entry then
          match img.stringAt (nameAddress entry) with
          | .error e => .error e
          | .ok name => img.namesFrom limit (place + entryWidth img : Nat) (name :: done)
        else img.namesFrom limit (place + entryWidth img : Nat) done := by
  rw [Image.namesFrom, entryWord_read]
  cases hentry : entryAt? img place with
  | none => rfl
  | some entry =>
    -- the reader looks at the top bit by the size of the number
    have hname := hasName_iff (entryAt?_lt hentry)
    simp only [entryWord_width, nameAddress_eq, ← Int.natCast_add, Int.natCast_eq_zero]
    by_cases hzero : entry = 0
    · rw [if_pos hzero, if_pos hzero]
    rw [if_neg hzero, if_neg hzero]
    by_cases hordinal : (img.entryWord.modulus : Int) ≤ 2 * (entry : Int)
    · rw [if_pos hordinal, if_neg (fun h => hname.mp h hordinal)]
    · rw [if_neg hordinal]
      exact (if_pos (hname.mpr hordinal)).symm

/-- One step of the walk over the descriptors. -/
theorem walkDescriptors_succ {α : Type} (img : Image)
    (read : ImportDescriptor → Except ImportError α) (limit place : Nat) :
    img.walkDescriptors read (limit + 1) place =
      match descriptorAt? img.data place with
      | none =>
        .error (.descriptor (.tooShort .importDescriptor img.data.size (place + 20 : Nat)))
      | some d =>
        if d.IsTerminator then .ok []
        else do
          let first ← read d
          let rest ← img.walkDescriptors read limit (place + 20 : Nat)
          return first :: rest := by
  rw [Image.walkDescriptors, ImportDescriptor.decode_natCast]
  -- the record is read, or there is no room for it and the walk is refused
  cases descriptorAt? img.data place with
  | none => rfl
  | some d =>
    simp only [mapError_ok, bind, Except.bind]
    by_cases hend : d.IsTerminator
    · rw [if_pos hend, if_pos hend]
      rfl
    · rw [if_neg hend, if_neg hend]
      rfl

/-- A walk over the descriptors that succeeds has listed the table, and has read each of them. -/
theorem walkDescriptors_eq_ok_iff {α : Type} {read : ImportDescriptor → Except ImportError α}
    {limit table : Nat} {found : List α} :
    img.walkDescriptors read limit table = .ok found ↔
      ListedAs (descriptorsFrom img.data table) ImportDescriptor.IsTerminator (fun _ => true)
        (fun d a => read d = .ok a) limit found := by
  -- the walk goes from place to place, and the list from entry to entry
  induction limit generalizing table found with
  | zero =>
    rw [listedAs_zero_iff]
    constructor
    · rintro ⟨⟩
      rfl
    · rintro rfl
      rfl
  | succ limit ih =>
    rw [walkDescriptors_succ]
    cases hd : descriptorAt? img.data table with
    | none =>
      -- neither can the table be listed, nor does the walk go on
      constructor
      · intro h
        cases h
      · intro h
        exact absurd h (not_listedAs_of_missing _ _ hd)
    | some d =>
      have hfrom : descriptorsFrom img.data table 0 = some d := hd
      by_cases hend : d.IsTerminator
      · simp only [listedAs_succ_of_ends _ _ hfrom hend, if_pos hend]
        constructor
        · rintro ⟨⟩
          rfl
        · rintro rfl
          rfl
      · simp only [listedAs_succ_of_keep _ (fun _ => true) hfrom hend rfl, descriptorsFrom_succ,
          if_neg hend]
        constructor
        · intro h
          obtain ⟨first, hfirst, h⟩ := bind_eq_ok_iff.mp h
          obtain ⟨rest, hrest, h⟩ := bind_eq_ok_iff.mp h
          -- the first descriptor was read, and the walk behind it is one over a shorter table
          cases h
          exact ⟨first, rest, rfl, hfirst, ih.mp hrest⟩
        · rintro ⟨first, rest, rfl, hfirst, hrest⟩
          have hwalk := ih.mpr hrest
          exact bind_eq_ok_iff.mpr ⟨first, hfirst, bind_eq_ok_iff.mpr ⟨rest, hwalk, rfl⟩⟩

/-- A walk over the descriptors that fails has come to one that is not there, or could not read one
that is. -/
theorem exists_of_walkDescriptors_eq_error {α : Type}
    {read : ImportDescriptor → Except ImportError α} {limit table : Nat} {e : ImportError}
    (h : img.walkDescriptors read limit table = .error e) :
    ∃ i, Reached (descriptorsFrom img.data table) ImportDescriptor.IsTerminator limit i
      ∧ ((descriptorsFrom img.data table i = none ∧ e.misread? = none)
        ∨ ∃ d, descriptorsFrom img.data table i = some d ∧ ¬ d.IsTerminator
            ∧ read d = .error e) := by
  -- the number of steps that are left is what the induction is on
  induction limit generalizing table with
  | zero => cases h
  | succ limit ih =>
    rw [walkDescriptors_succ] at h
    cases hd : descriptorAt? img.data table with
    | none =>
      rw [hd] at h
      cases h
      exact ⟨0, Reached.zero, .inl ⟨hd, rfl⟩⟩
    | some d =>
      simp only [hd] at h
      split at h
      next => cases h
      next hgo =>
        rcases bind_eq_error_iff.mp h with hfirst | ⟨first, -, h⟩
        · exact ⟨0, Reached.zero, .inr ⟨d, hd, hgo, hfirst⟩⟩
        · rcases bind_eq_error_iff.mp h with hrest | ⟨rest, -, h⟩
          · -- what is wrong behind the descriptor is one place further on in the table
            obtain ⟨i, hreached, hcause⟩ := ih hrest
            rw [← descriptorsFrom_succ] at hreached hcause
            exact ⟨i + 1, hreached.succ hd hgo, hcause⟩
          · cases h

/-- A walk over a lookup table that succeeds has listed it, and has the names of the entries that
have one. -/
theorem namesFrom_eq_ok_iff (hparsed : img.Parsed) {limit table : Nat} {done names : List String} :
    img.namesFrom limit table done = .ok names ↔
      ∃ found, ListedAs (entriesFrom img table) (· = 0) (hasName img)
          (fun entry name => NameAt img (nameAddress entry) name) limit found
        ∧ names = done.reverse ++ found := by
  -- the names found so far are carried along in reverse
  induction limit generalizing table done with
  | zero =>
    simp only [listedAs_zero_iff, exists_eq_left, List.append_nil]
    constructor
    · rintro ⟨⟩
      rfl
    · rintro rfl
      rfl
  | succ limit ih =>
    rw [namesFrom_succ]
    cases hentry : entryAt? img table with
    | none =>
      constructor
      · intro h
        cases h
      · rintro ⟨found, hlisted, -⟩
        exact absurd hlisted (not_listedAs_of_missing _ _ hentry)
    | some entry =>
      have hfrom : entriesFrom img table 0 = some entry := hentry
      -- an entry of zero ends the table, one with a name gives it, and any other gives nothing
      by_cases hzero : entry = 0
      · simp only [listedAs_succ_of_ends (· = 0) _ hfrom hzero, if_pos hzero, exists_eq_left,
          List.append_nil]
        constructor
        · rintro ⟨⟩
          rfl
        · rintro rfl
          rfl
      by_cases hname : hasName img entry = true
      · simp only [listedAs_succ_of_keep (· = 0) _ hfrom hzero hname, entriesFrom_succ,
          if_neg hzero, if_pos hname]
        constructor
        · intro h
          cases hstring : img.stringAt (nameAddress entry) with
          | error e =>
            rw [hstring] at h
            cases h
          | ok name =>
            simp only [hstring] at h
            obtain ⟨rest, hrest, rfl⟩ := ih.mp h
            refine ⟨name :: rest, ⟨name, rest, rfl, (stringAt_eq_ok_iff hparsed).mp hstring,
              hrest⟩, ?_⟩
            rw [List.reverse_cons, List.append_assoc, List.singleton_append]
        · -- the name goes to the front of those already found, which are in reverse
          rintro ⟨found, ⟨name, rest, rfl, hfirst, hrest⟩, rfl⟩
          rw [(stringAt_eq_ok_iff hparsed).mpr hfirst]
          refine ih.mpr ⟨rest, hrest, ?_⟩
          rw [List.reverse_cons, List.append_assoc, List.singleton_append]
      · -- an ordinal is passed over
        simp only [listedAs_succ_of_skip (· = 0) _ hfrom hzero hname, entriesFrom_succ,
          if_neg hzero, if_neg hname]
        exact ih

/-- A walk over a lookup table that fails has come to an entry that is not there, or to one whose
name is not. -/
theorem exists_of_namesFrom_eq_error (hparsed : img.Parsed) {limit table : Nat}
    {done : List String} {e : ImportError} (h : img.namesFrom limit table done = .error e) :
    e.misread? = none
      ∧ ∃ i, Reached (entriesFrom img table) (· = 0) limit i
        ∧ (entriesFrom img table i = none
          ∨ ∃ entry, entriesFrom img table i = some entry ∧ entry ≠ 0 ∧ hasName img entry
              ∧ Unmapped img (nameAddress entry)) := by
  -- as above, each step moves to the next place of the table
  induction limit generalizing table done with
  | zero => cases h
  | succ limit ih =>
    rw [namesFrom_succ] at h
    cases hentry : entryAt? img table with
    | none =>
      rw [hentry] at h
      cases h
      exact ⟨rfl, 0, Reached.zero, .inl hentry⟩
    | some entry =>
      simp only [hentry] at h
      -- what is wrong behind this entry is found by the walk over the rest
      have hbehind : ∀ {done}, entry ≠ 0 →
          img.namesFrom limit (table + entryWidth img : Nat) done = .error e →
          e.misread? = none
            ∧ ∃ i, Reached (entriesFrom img table) (· = 0) (limit + 1) i
              ∧ (entriesFrom img table i = none
                ∨ ∃ entry, entriesFrom img table i = some entry ∧ entry ≠ 0
                    ∧ hasName img entry ∧ Unmapped img (nameAddress entry)) := by
        intro done hgo hrest
        obtain ⟨hmisread, i, hreached, hcause⟩ := ih hrest
        rw [← entriesFrom_succ] at hreached hcause
        exact ⟨hmisread, i + 1, hreached.succ hentry hgo, hcause⟩
      split at h
      next => cases h
      next hgo =>
        split at h
        next hname =>
          split at h
          next e' hstring =>
            cases h
            obtain ⟨hunmapped, hmisread⟩ := unmapped_of_stringAt hparsed hstring
            exact ⟨hmisread, 0, Reached.zero, .inr ⟨entry, hentry, hgo, hname, hunmapped⟩⟩
          next name hstring => exact hbehind hgo h
        next => exact hbehind hgo h

end Walks

end Provenance.Pe
