import Mathlib.Data.List.Nodup
import Provenance.Proofs.MachO.Selection

/-!
# Slices told apart by name

A slice of a universal binary is looked up by the name of its architecture, while the architecture
table holds processor types. The two agree because no two processor types share a name: a name out
of the table belongs to one type, a type without one is spelled out as a number between parentheses,
and the spelling gives the number back.

* `toDigits_injective`, `signedHex_injective` — hexadecimal digits, with and without a sign, spell
  one number.
* `architectureOfCpuType_injective` — nor do two processor types share a name.
* `LastNamed` — the slice with the greatest number among those of a name;
  `Universal.find?_eq_some_iff_lastNamed` says that it is the one that is found.
* `slices_found_by_name` — so the search by name is a search by processor type.
-/

namespace Provenance

/-!
## Numbers and their spellings

A number is spelled with a sign and its digits to the base sixteen. Different numbers differ in the
sign or in a digit.
-/

namespace Text

theorem digitChar_injective_of_lt :
    ∀ n < 16, ∀ m < 16, Nat.digitChar n = Nat.digitChar m → n = m := by
  decide

/-- A number is told from its hexadecimal digits. -/
theorem toDigits_injective {n m : Nat} (h : Nat.toDigits 16 n = Nat.toDigits 16 m) : n = m := by
  -- the last digit is the remainder, and those in front of it spell the quotient
  induction n using Nat.strongRecOn generalizing m with
  | ind n ih =>
    rw [Nat.toDigits_eq_if (by decide), Nat.toDigits_eq_if (n := m) (by decide)] at h
    have hne : ∀ k, Nat.toDigits 16 k ≠ [] := fun k => Nat.toDigits_ne_nil
    split at h
    -- a single digit on one side is a single digit on the other
    · next hn =>
      split at h
      · next hm => exact digitChar_injective_of_lt n hn m hm (List.cons.inj h).1
      · have hfront := congrArg List.dropLast h
        rw [List.dropLast_concat] at hfront
        exact absurd hfront.symm (hne _)
    · next hn =>
      split at h
      · have hfront := congrArg List.dropLast h
        rw [List.dropLast_concat] at hfront
        exact absurd hfront (hne _)
      · next hm =>
        obtain ⟨hfront, hlast⟩ := List.append_inj' h rfl
        have hquotient : n / 16 = m / 16 := ih (n / 16) (by omega) hfront
        have hremainder : n % 16 = m % 16 :=
          digitChar_injective_of_lt _ (Nat.mod_lt _ (by decide)) _ (Nat.mod_lt _ (by decide))
            (List.cons.inj hlast).1
        omega

/-- A spelled integer consists of a sign, if it is negative, the mark and the digits. -/
theorem toList_signedHex (n : Int) :
    (signedHex n).toList
      = (if n < 0 then ['-'] else []) ++ '0' :: 'x' :: Nat.toDigits 16 n.natAbs := by
  unfold signedHex hex zeroPad
  split <;> simp

/-- An integer is told from its spelling: the sign is the first character, or there is none. -/
theorem signedHex_injective : Function.Injective signedHex := by
  intro n m h
  have hlist := congrArg String.toList h
  rw [toList_signedHex, toList_signedHex] at hlist
  -- behind the mark stand the digits of the absolute value
  have habs : ∀ {n m : Nat}, '0' :: 'x' :: Nat.toDigits 16 n = '0' :: 'x' :: Nat.toDigits 16 m →
      n = m := fun heq => toDigits_injective (List.cons.inj (List.cons.inj heq).2).2
  split at hlist
  · next hn =>
    split at hlist
    · next hm =>
      have := habs (List.cons.inj hlist).2
      omega
    · exact absurd (List.cons.inj hlist).1 (by decide)
  · next hn =>
    split at hlist
    · exact absurd (List.cons.inj hlist).1 (by decide)
    · next hm =>
      have := habs hlist
      omega

end Text

/-!
## Processor types and their names

The table holds each name once, and no name in it looks like a number that is spelled out, so that a
name is of one processor type only.
-/

/-- The names in the table belong to one processor type each. -/
theorem cpuTypeNames_nodup : (cpuTypeNames.map Prod.snd).Nodup := by
  decide

/-- No name in the table is one that a number is spelled with. -/
theorem not_prefix_of_mem_cpuTypeNames :
    ∀ entry ∈ cpuTypeNames, ¬ "cpu(".toList <+: entry.2.toList := by
  decide

/-- A name that was looked up stands in the table, with the number that it was looked up for. -/
theorem mem_of_lookup_eq_some {table : List (Int × String)} {cpuType : Int} {name : String}
    (h : table.lookup cpuType = some name) : (cpuType, name) ∈ table := by
  obtain ⟨before, after, rfl, -⟩ := List.lookup_eq_some_iff.mp h
  exact List.mem_append_right _ (List.mem_cons_self ..)

/-- A processor type has its name out of the table, or it is spelled out as a number. -/
theorem architectureOfCpuType_cases (cpuType : Int) :
    (cpuType, architectureOfCpuType cpuType) ∈ cpuTypeNames
      ∨ architectureOfCpuType cpuType = "cpu(" ++ Text.signedHex cpuType ++ ")" := by
  unfold architectureOfCpuType
  cases hlookup : cpuTypeNames.lookup cpuType with
  | some name => exact .inl (mem_of_lookup_eq_some hlookup)
  | none => exact .inr rfl

theorem prefix_spelled (cpuType : Int) :
    "cpu(".toList <+: ("cpu(" ++ Text.signedHex cpuType ++ ")").toList := by
  rw [String.toList_append, String.toList_append, List.append_assoc]
  exact List.prefix_append _ _

/-- No two processor types share a name. -/
theorem architectureOfCpuType_injective : Function.Injective architectureOfCpuType := by
  intro c d h
  -- each of the two names is one of the table or is spelled out from its number
  rcases architectureOfCpuType_cases c with hc | hc
  · rcases architectureOfCpuType_cases d with hd | hd
    · -- both names are of the table, where a name stands once
      rw [h] at hc
      exact congrArg Prod.fst (List.inj_on_of_nodup_map cpuTypeNames_nodup hc hd rfl)
    · -- no name of the table begins like a spelled one
      refine absurd ?_ (not_prefix_of_mem_cpuTypeNames _ hc)
      rw [h, hd]
      exact prefix_spelled d
  · rcases architectureOfCpuType_cases d with hd | hd
    · refine absurd ?_ (not_prefix_of_mem_cpuTypeNames _ hd)
      rw [← h, hc]
      exact prefix_spelled c
    · -- both are spelled out, and what stands between the parentheses is the same
      rw [hc, hd, String.append_left_inj, String.append_right_inj] at h
      exact Text.signedHex_injective h

/-!
## Slices and their names

A slice goes by the name of its processor type, in the table of the file and in its own header.
Where several slices have one name, the last of them is found.
-/

namespace MachO

/-- The slice of a number is the last one of a name: those of greater numbers have other names. -/
structure LastNamed (u : Universal) (name : String) (i : Nat) (s : Slice) : Prop where
  slice : u.slices[i]? = some s
  named : s.architecture = name
  last : ∀ (j : Nat) (t : Slice), i < j → u.slices[j]? = some t → t.architecture ≠ name

section Names

variable {data : Bytes} {u : Universal} {s : Slice}

/-- The search by name finds the last slice of that name. -/
theorem Universal.find?_eq_some_iff_lastNamed {name : String} :
    u.find? name = some s ↔ ∃ i, LastNamed u name i s := by
  rw [find?_eq_some_iff]
  constructor
  · rintro ⟨hname, before, after, hslices, hlast⟩
    -- the slices behind the last one of the name have other names
    refine ⟨before.length, by simp [hslices], hname, ?_⟩
    intro j t hj ht
    obtain ⟨k, rfl⟩ := Nat.exists_eq_add_of_lt hj
    rw [hslices, List.getElem?_append_right (by omega), Nat.add_assoc, Nat.add_sub_cancel_left,
      List.getElem?_cons_succ] at ht
    exact hlast t (List.mem_of_getElem? ht)
  -- those behind the number are the ones behind the slice
  · rintro ⟨i, hi, hname, hlast⟩
    obtain ⟨hlt, rfl⟩ := List.getElem?_eq_some_iff.mp hi
    refine ⟨hname, u.slices.take i, u.slices.drop (i + 1), ?_, ?_⟩
    · rw [List.getElem_cons_drop, List.take_append_drop]
    · intro t ht
      obtain ⟨k, hk⟩ := List.getElem?_of_mem ht
      rw [List.getElem?_drop] at hk
      exact hlast (i + 1 + k) t (by omega) hk

/-- The slices of a universal binary are those of the entries of the table, number by number. -/
theorem sliceOf_of_getElem? (h : Universal.ofBytes data = .ok u) {i : Nat}
    (hi : u.slices[i]? = some s) : i < archCount data ∧ SliceOf data i s := by
  obtain ⟨-, -, hslices⟩ := ofBytes_eq_ok_iff.mp h
  obtain ⟨hlt, rfl⟩ := List.getElem?_eq_some_iff.mp hi
  have hcount : u.slices.length = archCount data := by
    rw [← hslices.length_eq, List.length_range]
  refine ⟨hcount ▸ hlt, ?_⟩
  have hslice := hslices.get (i := i) (by rw [hslices.length_eq]; exact hlt) hlt
  rwa [List.get_eq_getElem, List.getElem_range, List.get_eq_getElem] at hslice

/-- The image of a slice is for the processor that the table names. -/
theorem cpuType_image_of_mem (h : Universal.ofBytes data = .ok u) (hs : s ∈ u.slices) :
    s.image.header.cpuType = s.arch.cpuType := by
  obtain ⟨i, hi⟩ := List.getElem?_of_mem hs
  obtain ⟨hcount, hslice⟩ := sliceOf_of_getElem? h hi
  obtain ⟨hfits, -, -⟩ := ofBytes_eq_ok_iff.mp h
  obtain ⟨img, himage, hcpu⟩ := (hfits.entries i hcount).image
  cases himage.symm.trans hslice.image
  rw [hslice.arch]
  exact hcpu

/-- The name that the table gives to a slice is the name that its image has. -/
theorem architecture_image_of_mem (h : Universal.ofBytes data = .ok u) (hs : s ∈ u.slices) :
    s.architecture = s.image.architecture :=
  congrArg architectureOfCpuType (cpuType_image_of_mem h hs).symm

/-- No two processor types share a name, be they known, spelled out or negative. So in a universal
binary a name stands for one processor type: the search for it finds the slice of the entry with the
greatest number among those of the name, if there is one, and all of them have the processor type of
that one. The table and the images agree about the names. -/
theorem slices_found_by_name :
    Function.Injective architectureOfCpuType
    ∧ ∀ (data : Bytes) (u : Universal), Universal.ofBytes data = .ok u →
      (∀ i s, u.slices[i]? = some s → i < archCount data ∧ s.arch = archAt data i
        ∧ s.architecture = s.image.architecture)
      ∧ ∀ name,
        (∀ s, u.find? name = some s ↔ ∃ i, LastNamed u name i s)
        ∧ (u.find? name = none ↔ ∀ t ∈ u.slices, t.architecture ≠ name)
        ∧ ∀ s ∈ u.slices, ∀ t ∈ u.slices, s.architecture = name → t.architecture = name →
            s.arch.cpuType = t.arch.cpuType := by
  -- the names belong to the processor types, and the rest is about slices
  refine ⟨architectureOfCpuType_injective, fun data u h => ⟨?_, fun name => ⟨?_, ?_, ?_⟩⟩⟩
  · intro i s hi
    obtain ⟨hcount, hslice⟩ := sliceOf_of_getElem? h hi
    exact ⟨hcount, hslice.arch, architecture_image_of_mem h (List.mem_of_getElem? hi)⟩
  · intro s
    exact Universal.find?_eq_some_iff_lastNamed
  · exact Universal.find?_eq_none_iff
  · intro s _ t _ hs ht
    exact architectureOfCpuType_injective (hs.trans ht.symm)

/-- Two slices are for processors of the type 7, and the second one is found. -/
theorem smallUniversal_found_by_name :
    ∃ u, Universal.ofBytes smallUniversal = .ok u
      ∧ ∃ s i, u.find? "x86" = some s ∧ LastNamed u "x86" i s
        ∧ s.arch.cpuType = 7 ∧ s.arch.cpuSubtype = 8 ∧ s.architecture = s.image.architecture
        ∧ u.find? "arm" = none ∧ ∀ t ∈ u.slices, t.architecture ≠ "arm" := by
  -- both searches are run, and what they find is named
  have hrun : (Universal.ofBytes smallUniversal).toOption.any (fun u =>
      (u.find? "x86").any (fun s => s.arch.cpuType == 7 && s.arch.cpuSubtype == 8)
        && u.find? "arm" == none) = true := by
    decide +kernel
  obtain ⟨u, hu, htest⟩ := exists_ok_of_any hrun
  rw [Bool.and_eq_true, beq_iff_eq] at htest
  obtain ⟨hx86, harm⟩ := htest
  obtain ⟨s, hs, hplace⟩ := (Option.any_eq_true ..).mp hx86
  simp only [Bool.and_eq_true, beq_iff_eq] at hplace
  obtain ⟨-, hslices⟩ := slices_found_by_name
  obtain ⟨heach, hnames⟩ := hslices smallUniversal u hu
  obtain ⟨i, hlast⟩ := ((hnames "x86").1 s).mp hs
  obtain ⟨-, -, himage⟩ := heach i s hlast.slice
  exact ⟨u, hu, s, i, hs, hlast, hplace.1, hplace.2, himage, harm, (hnames "arm").2.1.mp harm⟩

end Names

end MachO

end Provenance
