import Provenance.Pe.Import
import Provenance.Proofs.Pe.Parsed
import Provenance.Proofs.Walk

/-!
# The import table of a PE image

What an image imports, told from the numbers that stand at each place of the file and not from a
run of the reader.

* `descriptorsFrom`, `entriesFrom` — the entries of a table, by their number.
* `ImportTable` — the libraries and functions that an image imports.
* `BrokenTable` — something that has to be read or found to tell them is not in the file.
* `ImportTable.not_broken` — what an image with a broken table imports is not told by anything.
-/

namespace Provenance.Pe

/-! ## Entries at their places -/

/-- The import descriptor at a place, if it lies in the file. -/
def descriptorAt? (data : Bytes) (place : Nat) : Option ImportDescriptor :=
  if place + 20 ≤ data.size then
    some {
      lookupTable := data.number .little place 4
      timeDateStamp := data.number .little (place + 4) 4
      forwarderChain := data.number .little (place + 8) 4
      name := data.number .little (place + 12) 4
      addressTable := data.number .little (place + 16) 4 }
  else none

/-- The import descriptors from a place on. -/
def descriptorsFrom (data : Bytes) (table i : Nat) : Option ImportDescriptor :=
  descriptorAt? data (table + 20 * i)

theorem descriptorsFrom_succ (data : Bytes) (table : Nat) :
    (fun i => descriptorsFrom data table (i + 1)) = descriptorsFrom data (table + 20) := by
  funext i
  unfold descriptorsFrom
  congr 1
  omega

/-- The number of bytes of an entry of a lookup table. -/
def entryWidth (img : Image) : Nat := if img.isPe32Plus then 8 else 4

/-- The entry of a lookup table at a place, if it lies in the file. -/
def entryAt? (img : Image) (place : Nat) : Option Nat :=
  if place + entryWidth img ≤ img.data.size then
    some (img.data.number .little place (entryWidth img))
  else none

/-- The entries of a lookup table from a place on. -/
def entriesFrom (img : Image) (table i : Nat) : Option Nat :=
  entryAt? img (table + entryWidth img * i)

/-- The entries behind the first are those from the next place on. -/
theorem entriesFrom_succ (img : Image) (table : Nat) :
    (fun i => entriesFrom img table (i + 1)) = entriesFrom img (table + entryWidth img) := by
  funext i
  unfold entriesFrom
  congr 1
  rw [Nat.mul_succ]
  omega

/-- An entry imports by name: its top bit does not mark an ordinal. -/
def hasName (img : Image) (entry : Nat) : Bool := !entry.testBit (8 * entryWidth img - 1)

/-- The address of the name that an entry stands for, which lies behind a hint of two bytes. -/
def nameAddress (entry : Nat) : Nat := (entry &&& 0x7FFFFFFF) + 2

/-!
## The table

An import table is described as it lies in the file: its descriptors up to the one that ends them,
the entries of each lookup table up to a zero, and the names that they point to.
-/

/-- The address of a name lies in the file, and the name stands there. -/
def NameAt (img : Image) (address : Int) (name : String) : Prop :=
  ∃ place, img.Mapped address place ∧ name = img.data.cString place none

/-- The functions that the entries of the lookup table at an address import by name. -/
def FunctionsAt (img : Image) (address : Int) (functions : List String) : Prop :=
  ∃ table entries, img.Mapped address table
    ∧ Listed (entriesFrom img table) (· = 0) 65536 entries
    ∧ List.Forall₂ (fun entry name => NameAt img (nameAddress entry) name)
        (entries.filter (hasName img)) functions

/-- What a descriptor imports. -/
structure Describes (img : Image) (d : ImportDescriptor) (found : Import) : Prop where
  library : NameAt img d.name found.library
  functions : FunctionsAt img (if d.lookupTable = 0 then d.addressTable else d.lookupTable)
    found.functions

/-- The address of the import table; an image need not have one. -/
def tableAddress? (img : Image) : Option Int :=
  match img.directories[1]? with
  | some directory =>
    if directory.virtualAddress = 0 then none else some directory.virtualAddress
  | none => none

/-- What an image imports. -/
inductive ImportTable (img : Image) : List Import → Prop
  /-- Without a table it imports nothing. -/
  | absent (h : tableAddress? img = none) : ImportTable img []
  /-- Each descriptor in front of the one that ends the table imports from one library. -/
  | present {address : Int} {table : Nat} {descriptors : List ImportDescriptor}
      {found : List Import} (haddress : tableAddress? img = some address)
      (hmapped : img.Mapped address table)
      (hlisted : Listed (descriptorsFrom img.data table) ImportDescriptor.IsTerminator 4096
        descriptors)
      (hdescribed : List.Forall₂ (Describes img) descriptors found) : ImportTable img found

/-- An address lies nowhere in the file. -/
def Unmapped (img : Image) (address : Int) : Prop := ∀ place, ¬ img.Mapped address place

/-- What the lookup table at an address imports cannot be told. -/
inductive BrokenLookup (img : Image) (address : Int) : Prop
  /-- The table is not in the file. -/
  | table (h : Unmapped img address)
  /-- An entry that has to be read is not in the file as a whole. -/
  | entry {table i : Nat} (hmapped : img.Mapped address table)
      (hreached : Reached (entriesFrom img table) (· = 0) 65536 i)
      (h : entriesFrom img table i = none)
  /-- The name of an entry is not in the file. -/
  | name {table i entry : Nat} (hmapped : img.Mapped address table)
      (hreached : Reached (entriesFrom img table) (· = 0) 65536 i)
      (hentry : entriesFrom img table i = some entry) (hgo : entry ≠ 0)
      (hname : hasName img entry) (h : Unmapped img (nameAddress entry))

/-- What an image imports cannot be told. -/
inductive BrokenTable (img : Image) : Prop
  /-- The table is not in the file. -/
  | table {address : Int} (haddress : tableAddress? img = some address)
      (h : Unmapped img address)
  /-- A descriptor that has to be read is not in the file as a whole. -/
  | descriptor {address : Int} {table i : Nat} (haddress : tableAddress? img = some address)
      (hmapped : img.Mapped address table)
      (hreached : Reached (descriptorsFrom img.data table) ImportDescriptor.IsTerminator 4096 i)
      (h : descriptorsFrom img.data table i = none)
  /-- The name of a library is not in the file, or its lookup table is broken. -/
  | library {address : Int} {table i : Nat} {d : ImportDescriptor}
      (haddress : tableAddress? img = some address) (hmapped : img.Mapped address table)
      (hreached : Reached (descriptorsFrom img.data table) ImportDescriptor.IsTerminator 4096 i)
      (hdescriptor : descriptorsFrom img.data table i = some d) (hgo : ¬ d.IsTerminator)
      (h : Unmapped img d.name
        ∨ BrokenLookup img (if d.lookupTable = 0 then d.addressTable else d.lookupTable))

/-!
## Whole tables and broken ones

No table is both. Each way to be broken contradicts a part of what makes a table whole.
-/

section Broken

variable {img : Image}

/-- The functions of a broken lookup table are not told by anything. -/
theorem FunctionsAt.not_broken {address : Int} {functions : List String}
    (h : FunctionsAt img address functions) : ¬ BrokenLookup img address := by
  obtain ⟨table, entries, hmapped, hlisted, hnames⟩ := h
  intro hbroken
  cases hbroken with
  | table hunmapped => exact hunmapped table hmapped
  | entry hmapped' hreached hmissing =>
    cases hmapped.unique hmapped'
    obtain ⟨entry, hentry, -⟩ := hlisted.exists_of_reached hreached
    cases hmissing.symm.trans hentry
  | name hmapped' hreached hentry hgo hname hunmapped =>
    -- the entry is one of those listed, and its name was found
    cases hmapped.unique hmapped'
    obtain ⟨entry, hentry', hcase⟩ := hlisted.exists_of_reached hreached
    cases hentry.symm.trans hentry'
    have hmem := List.mem_filter.mpr ⟨hcase.resolve_left hgo, hname⟩
    obtain ⟨name, place, hplace, -⟩ := exists_of_forall₂_of_mem hnames hmem
    exact hunmapped place hplace

/-- What a descriptor imports is told only if nothing about it is broken. -/
theorem Describes.not_broken {d : ImportDescriptor} {found : Import} (h : Describes img d found) :
    ¬ (Unmapped img d.name ∨ BrokenLookup img d.namesTable) := by
  obtain ⟨⟨place, hplace, -⟩, hfunctions⟩ := h
  rintro (hunmapped | hbroken)
  · exact hunmapped place hplace
  · exact hfunctions.not_broken hbroken

/-- What an image with a broken table imports is not told by anything. -/
theorem ImportTable.not_broken {found : List Import} (h : ImportTable img found) :
    ¬ BrokenTable img := by
  intro hbroken
  cases h with
  | absent haddress =>
    cases hbroken with
    | table haddress' => cases haddress.symm.trans haddress'
    | descriptor haddress' => cases haddress.symm.trans haddress'
    | library haddress' => cases haddress.symm.trans haddress'
  | present haddress hmapped hlisted hdescribed =>
    -- the address of the table has one place only, so that both speak of the same table
    cases hbroken with
    | table haddress' hunmapped =>
      cases haddress.symm.trans haddress'
      exact hunmapped _ hmapped
    | descriptor haddress' hmapped' hreached hmissing =>
      cases haddress.symm.trans haddress'
      cases hmapped.unique hmapped'
      obtain ⟨d, hd, -⟩ := hlisted.exists_of_reached hreached
      cases hmissing.symm.trans hd
    | library haddress' hmapped' hreached hd hgo hbroken =>
      -- the descriptor is one of those listed, and what it imports was told
      cases haddress.symm.trans haddress'
      cases hmapped.unique hmapped'
      obtain ⟨d, hd', hcase⟩ := hlisted.exists_of_reached hreached
      cases hd.symm.trans hd'
      obtain ⟨found, hdescribes⟩ :=
        exists_of_forall₂_of_mem hdescribed (hcase.resolve_left hgo)
      exact hdescribes.not_broken hbroken

end Broken

end Provenance.Pe
