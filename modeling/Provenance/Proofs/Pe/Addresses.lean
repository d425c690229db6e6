import Mathlib.Data.List.Pairwise
import Provenance.Proofs.Pe.Parsed

/-!
# Addresses and sections

A section holds a range of addresses, and some bytes of it are in the file. The two sizes differ in
either direction, and nothing keeps two sections from holding the same address. An address is
looked up in the first section that holds it and in no other: where this one has no byte for it, a
later one that has is not found.

* `SectionHeader.Backs` — a section has the byte at an address in the file.
* `Image.FirstHolder` — the section in which an address is looked up.
* `Image.Hidden` — a section that holds an address, but has no byte for it, stands in front of all
  that have one.
* `Image.SeparateAt` — no two sections hold an address.
* `fileOffset?_eq_some_iff_firstHolder`, `exists_firstHolder` — the translation of an address.
* `backs_iff_not_hidden` — when the section that an address is looked up in backs it.

Main result:

* `backed_address_found_unless_hidden` — which addresses are found, and where.
-/

namespace Provenance.Pe

/-- The section has the byte at an address in the file. -/
def SectionHeader.Backs (h : SectionHeader) (address : Int) : Prop :=
  h.Holds address ∧ address - h.virtualAddress < h.rawSize

instance (h : SectionHeader) (address : Int) : Decidable (h.Backs address) := by
  unfold SectionHeader.Backs
  infer_instance

/-- The offset in the file at which a section has the byte at an address. -/
def SectionHeader.offsetOf (h : SectionHeader) (address : Int) : Int :=
  h.rawOffset + (address - h.virtualAddress)

namespace Image

variable {img : Image} {address : Int}

/-- The section is the first one that holds an address. -/
def FirstHolder (img : Image) (address : Int) (s : Section) : Prop :=
  s.header.Holds address ∧ ∃ i : Nat, img.sections[i]? = some s
    ∧ ∀ j < i, ∀ t : Section, img.sections[j]? = some t → ¬ t.header.Holds address

/-- A section that holds an address without a byte for it stands in front of all that have one. -/
def Hidden (img : Image) (address : Int) : Prop :=
  ∃ (i : Nat) (t : Section), img.sections[i]? = some t
    ∧ t.header.Holds address ∧ ¬ t.header.Backs address
    ∧ ∀ j < i, ∀ s : Section, img.sections[j]? = some s → ¬ s.header.Backs address

/-- No two sections hold an address. -/
def SeparateAt (img : Image) (address : Int) : Prop :=
  img.sections.Pairwise fun s t => ¬ (s.header.Holds address ∧ t.header.Holds address)

instance (img : Image) (address : Int) : Decidable (img.SeparateAt address) := by
  unfold SeparateAt
  infer_instance

/-- The search for a section that holds an address finds the first one. -/
theorem find?_eq_some_iff_firstHolder {s : Section} :
    img.sections.find? (·.header.Holds address) = some s ↔ img.FirstHolder address s := by
  rw [List.find?_eq_some_iff_getElem, FirstHolder, decide_eq_true_eq]
  -- both sides count the sections that stand in front of the one that is found
  refine and_congr_right fun _ => ⟨?_, ?_⟩
  · rintro ⟨i, hi, rfl, hbefore⟩
    refine ⟨i, List.getElem?_eq_getElem hi, fun j hj t ht => ?_⟩
    have hnot := hbefore j hj
    rw [List.getElem?_eq_getElem (by omega)] at ht
    cases ht
    simpa using hnot
  · rintro ⟨i, hi, hbefore⟩
    obtain ⟨hlt, rfl⟩ := List.getElem?_eq_some_iff.mp hi
    refine ⟨i, hlt, rfl, fun j hj => ?_⟩
    have hnot := hbefore j hj _ (List.getElem?_eq_getElem (by omega))
    simpa using hnot

/-- An address is found exactly in the first section that holds it, if that section backs it. -/
theorem fileOffset?_eq_some_iff_firstHolder {offset : Int} :
    img.fileOffset? address = some offset ↔
      ∃ s, img.FirstHolder address s ∧ s.header.Backs address
        ∧ offset = s.header.offsetOf address := by
  simp only [← find?_eq_some_iff_firstHolder]
  unfold fileOffset?
  cases hfind : img.sections.find? (·.header.Holds address) with
  | none => simp
  | some s =>
    have hholds : s.header.Holds address := (find?_eq_some_iff_firstHolder.mp hfind).1
    -- the section holds the address, so that only the size in the file is left to decide
    simp only [Option.some.injEq, exists_eq_left', SectionHeader.Backs, hholds, true_and,
      SectionHeader.offsetOf]
    split
    · simp
      omega
    · simp
      omega

/-- An address that some section holds has a first one. -/
theorem exists_firstHolder {s : Section} (hs : s ∈ img.sections) (hholds : s.header.Holds address) :
    ∃ t, img.FirstHolder address t := by
  simp only [← find?_eq_some_iff_firstHolder]
  rw [← Option.isSome_iff_exists, List.find?_isSome]
  exact ⟨s, hs, by simpa using hholds⟩

/-- Of the sections that back an address one is found unless they are all hidden. -/
theorem backs_iff_not_hidden {s : Section} (hfirst : img.FirstHolder address s) :
    s.header.Backs address ↔
      (∃ t ∈ img.sections, t.header.Backs address) ∧ ¬ img.Hidden address := by
  obtain ⟨hholds, i, hi, hbefore⟩ := hfirst
  constructor
  · intro hbacks
    refine ⟨⟨s, List.mem_of_getElem? hi, hbacks⟩, ?_⟩
    rintro ⟨j, t, hj, htholds, htbacks, hnone⟩
    -- the section that hides cannot stand in front of `s`, behind it, or be `s` itself
    rcases Nat.lt_trichotomy j i with hlt | rfl | hgt
    · exact hbefore j hlt t hj htholds
    · cases hi.symm.trans hj
      exact htbacks hbacks
    · exact hnone i hgt s hi hbacks
  · rintro ⟨-, hnot⟩
    refine Decidable.byContradiction fun hbacks => ?_
    -- no section in front of the first holder backs the address, for none holds it
    exact hnot ⟨i, s, hi, hholds, hbacks, fun j hj t ht h => hbefore j hj t ht h.1⟩

/-- Where no two sections hold an address, the one that holds it is the only one. -/
theorem eq_of_separateAt (hseparate : img.SeparateAt address) {s t : Section}
    (hs : s ∈ img.sections) (ht : t ∈ img.sections) (hsholds : s.header.Holds address)
    (htholds : t.header.Holds address) : s = t := by
  refine Decidable.byContradiction fun hne => ?_
  have hsymm : Std.Symm fun s t : Section => ¬ (s.header.Holds address ∧ t.header.Holds address) :=
    ⟨fun _ _ h hboth => h hboth.symm⟩
  exact hseparate.forall hs ht hne ⟨hsholds, htholds⟩

/-- An address is found exactly if some section backs it and these sections are not hidden, and
then at the byte that the first section which holds it has there. Where no two sections hold the
address, it is found exactly if one backs it. -/
theorem backed_address_found_unless_hidden (img : Image) (address : Int) :
    (∀ offset, img.fileOffset? address = some offset →
        ∃ s ∈ img.sections, img.FirstHolder address s ∧ s.header.Backs address
          ∧ offset = s.header.offsetOf address)
      ∧ ((∃ offset, img.fileOffset? address = some offset) ↔
          (∃ s ∈ img.sections, s.header.Backs address) ∧ ¬ img.Hidden address)
      ∧ (img.SeparateAt address →
          ∀ offset, img.fileOffset? address = some offset ↔
            ∃ s ∈ img.sections, s.header.Backs address ∧ offset = s.header.offsetOf address) := by
  -- every address that is backed has a first holder, and what decides is whether that one backs it
  have hfound : (∃ offset, img.fileOffset? address = some offset) ↔
      (∃ s ∈ img.sections, s.header.Backs address) ∧ ¬ img.Hidden address := by
    simp only [fileOffset?_eq_some_iff_firstHolder]
    constructor
    · rintro ⟨offset, s, hfirst, hbacks, -⟩
      exact (backs_iff_not_hidden hfirst).mp hbacks
    · intro h
      obtain ⟨t, ht, htbacks⟩ := h.1
      obtain ⟨s, hfirst⟩ := exists_firstHolder ht htbacks.1
      exact ⟨_, s, hfirst, (backs_iff_not_hidden hfirst).mpr h, rfl⟩
  have hplace : ∀ offset, img.fileOffset? address = some offset →
      ∃ s ∈ img.sections, img.FirstHolder address s ∧ s.header.Backs address
        ∧ offset = s.header.offsetOf address := by
    intro offset h
    obtain ⟨s, hfirst, hbacks, hoffset⟩ := fileOffset?_eq_some_iff_firstHolder.mp h
    obtain ⟨i, hi, -⟩ := hfirst.2
    exact ⟨s, List.mem_of_getElem? hi, hfirst, hbacks, hoffset⟩
  refine ⟨hplace, hfound, fun hseparate offset => ⟨fun h => ?_, ?_⟩⟩
  · obtain ⟨s, hs, -, hbacks, hoffset⟩ := hplace offset h
    exact ⟨s, hs, hbacks, hoffset⟩
  · rintro ⟨s, hs, hbacks, rfl⟩
    -- whichever section holds the address is `s`
    obtain ⟨t, hfirst⟩ := exists_firstHolder hs hbacks.1
    obtain ⟨i, hi, -⟩ := hfirst.2
    obtain rfl := eq_of_separateAt hseparate hs (List.mem_of_getElem? hi) hbacks.1 hfirst.1
    exact fileOffset?_eq_some_iff_firstHolder.mpr ⟨s, hfirst, hbacks, rfl⟩

end Image

/-- An object with two sections at the addresses 16 to 47 and 32 to 63, of which the first has
eight bytes in the file and the second has all. -/
def overlappingObject : Bytes :=
  let zeros := fun n => List.replicate n (0 : UInt8)
  let word := fun n : UInt8 => [n, 0, 0, 0]
  let headers := [0x4D, 0x5A] ++ zeros 58 ++ word 64 ++ signature
    ++ [0x4C, 1, 2, 0] ++ zeros 16
  let first := [0x61] ++ zeros 7 ++ word 32 ++ word 16 ++ word 8 ++ word 168 ++ zeros 16
  let second := [0x62] ++ zeros 7 ++ word 32 ++ word 32 ++ word 32 ++ word 176 ++ zeros 16
  (headers ++ first ++ second ++ zeros 40).toArray

/-- Behind the addresses of the first section the second one is found. -/
theorem overlappingObject_found_behind :
    ∃ img, Image.ofBytes overlappingObject = .ok img ∧ img.SeparateAt 50
      ∧ img.fileOffset? 50 = some 194 := by
  obtain ⟨img, hread, h⟩ := exists_ok_of_any (x := Image.ofBytes overlappingObject)
    (p := fun img => decide (img.SeparateAt 50
      ∧ ∃ s ∈ img.sections, s.header.Backs 50 ∧ 194 = s.header.offsetOf 50)) (by decide +kernel)
  obtain ⟨hseparate, hbacked⟩ := of_decide_eq_true h
  obtain ⟨-, -, hfound⟩ := Image.backed_address_found_unless_hidden img 50
  exact ⟨img, hread, hseparate, (hfound hseparate 194).mpr hbacked⟩

/-- Where both sections hold an address, the byte that the second one has there is not found. -/
theorem overlappingObject_hides :
    ∃ img, Image.ofBytes overlappingObject = .ok img
      ∧ (∃ s ∈ img.sections, s.header.Backs 40 ∧ s.header.offsetOf 40 = 184)
      ∧ img.fileOffset? 40 = none := by
  obtain ⟨img, hread, h⟩ := exists_ok_of_any (x := Image.ofBytes overlappingObject)
    (p := fun img => decide
      ((∃ s ∈ img.sections, s.header.Backs 40 ∧ s.header.offsetOf 40 = 184)
        ∧ img.fileOffset? 40 = none)) (by decide +kernel)
  exact ⟨img, hread, of_decide_eq_true h⟩

end Provenance.Pe
