import Provenance.MachO.Evidence
import Provenance.Proofs.MachO.Slices

/-!
# The slice that a host looks at

Of a universal binary one slice is looked at, and it is looked at as if it were a file of its own.

* `Selected` — the slice that a host looks at, told from the order of the slices.
* `Universal.select?_eq_some_iff` — the search finds this slice and no other.
* `inspect_of_image`, `inspect_of_universal` — which way a file is inspected depends on its first
  word, and a file that was read has the word for its way.
* `universal_inspected_as_selected_slice` — the evidence in a universal binary is that in the file
  which the selected slice makes by itself.
-/

namespace Provenance.MachO

/-!
## Selection

The last slice whose architecture is that of the host is taken, and the first slice of all if there
is none.
-/

/-- The slice that a host looks at. -/
inductive Selected (u : Universal) (host? : Option String) (s : Slice) : Prop
  /-- It is the last one of the architecture of the host. -/
  | ofHost {before after : List Slice} (hslices : u.slices = before ++ s :: after)
      (hhost : host? = some s.architecture) (hlast : ∀ t ∈ after, t.architecture ≠ s.architecture)
  /-- It is the first one, if there is none of the host or the host is not known. -/
  | first {rest : List Slice} (hslices : u.slices = s :: rest)
      (hnone : ∀ t ∈ u.slices, host? ≠ some t.architecture)

/-- A selected slice is one of the slices. -/
theorem Selected.mem {u : Universal} {host? : Option String} {s : Slice}
    (h : Selected u host? s) : s ∈ u.slices := by
  cases h with
  | ofHost hslices =>
    rw [hslices]
    exact List.mem_append_right _ (List.mem_cons_self ..)
  | first hslices =>
    rw [hslices]
    exact List.mem_cons_self ..

namespace Universal

variable {u : Universal} {s : Slice}

/-- The search finds the last slice of an architecture. -/
theorem find?_eq_some_iff {architecture : String} :
    u.find? architecture = some s ↔
      s.architecture = architecture ∧ ∃ before after, u.slices = before ++ s :: after
        ∧ ∀ t ∈ after, t.architecture ≠ architecture := by
  unfold find?
  rw [List.find?_eq_some_iff_append]
  simp only [decide_eq_true_eq, Bool.not_eq_true', decide_eq_false_iff_not]
  -- the search goes through the slices from the last one on
  constructor
  · rintro ⟨hname, after, before, hslices, hlast⟩
    refine ⟨hname, before.reverse, after.reverse, ?_, ?_⟩
    · rw [← List.reverse_reverse u.slices, hslices]
      simp
    · intro t ht
      exact hlast t (List.mem_reverse.mp ht)
  · rintro ⟨hname, before, after, hslices, hlast⟩
    refine ⟨hname, after.reverse, before.reverse, ?_, ?_⟩
    · rw [hslices]
      simp
    · intro t ht
      exact hlast t (List.mem_reverse.mp ht)

theorem find?_eq_none_iff {architecture : String} :
    u.find? architecture = none ↔ ∀ t ∈ u.slices, t.architecture ≠ architecture := by
  unfold find?
  simp only [List.find?_eq_none, List.mem_reverse, decide_eq_true_eq, ne_eq]

/-- There is no slice of the host exactly when the search for one finds nothing. -/
theorem bind_find?_eq_none_iff {host? : Option String} :
    host?.bind u.find? = none ↔ ∀ t ∈ u.slices, host? ≠ some t.architecture := by
  cases host? with
  | none =>
    constructor
    · intro _ t _
      exact nofun
    · intro _
      rfl
  | some host =>
    rw [Option.bind_some, find?_eq_none_iff]
    constructor
    · intro h t ht heq
      exact h t ht (Option.some.inj heq).symm
    · intro h t ht heq
      exact h t ht (congrArg some heq.symm)

/-- The slice that the reader selects is the selected one. -/
theorem select?_eq_some_iff {host? : Option String} :
    u.select? host? = some s ↔ Selected u host? s := by
  unfold select?
  constructor
  · intro h
    -- the first slice is taken only where the search for the host finds none
    cases hfind : host?.bind u.find? with
    | some t =>
      rw [hfind, Option.some_or] at h
      cases h
      obtain ⟨host, rfl, hhost⟩ := Option.bind_eq_some_iff.mp hfind
      obtain ⟨rfl, before, after, hslices, hlast⟩ := find?_eq_some_iff.mp hhost
      exact .ofHost hslices rfl hlast
    | none =>
      rw [hfind, Option.none_or] at h
      obtain ⟨rest, hslices⟩ := List.head?_eq_some_iff.mp h
      exact .first hslices (bind_find?_eq_none_iff.mp hfind)
  · intro h
    cases h with
    | ofHost hslices hhost hlast =>
      have hfind : u.find? s.architecture = some s :=
        find?_eq_some_iff.mpr ⟨rfl, _, _, hslices, hlast⟩
      rw [hhost, Option.bind_some, hfind, Option.some_or]
    | first hslices hnone =>
      rw [bind_find?_eq_none_iff.mpr hnone, Option.none_or, hslices, List.head?_cons]

/-- A binary without slices has none to look at, and any other has one. -/
theorem select?_eq_none_iff {host? : Option String} : u.select? host? = none ↔ u.slices = [] := by
  unfold select?
  rw [Option.or_eq_none_iff, List.head?_eq_none_iff]
  constructor
  · rintro ⟨-, hslices⟩
    exact hslices
  · intro hslices
    refine ⟨bind_find?_eq_none_iff.mpr ?_, hslices⟩
    rw [hslices]
    intro t ht
    cases ht

end Universal

/-!
## Inspection

An image is not a universal binary, since their magic numbers differ. The slice that is taken is
therefore inspected as a thin file, and the evidence is that of its bytes alone.
-/

section Inspection

variable {data : Bytes}

/-- A file that was read as an image has the commands of one. -/
theorem exists_hasCommands_of_ofBytes {img : Image} (h : Image.ofBytes data = .ok img) :
    ∃ order, HasCommands data order := by
  -- a file without commands in either order would have been refused
  by_contra hnone
  obtain ⟨e, he, -⟩ := Image.exists_error_of_ofBytes (not_exists.mp hnone)
  cases h.symm.trans he

/-- No image starts with the word of a universal binary. -/
theorem HasCommands.not_universal {order : ByteOrder} (h : HasCommands data order) :
    data.number .big 0 4 ∉ universalMagics := by
  have hsize := h.header
  cases order with
  | big =>
    rcases h.magic with hmagic | hmagic
    · rw [hmagic]
      decide
    · rw [hmagic]
      decide
  | little =>
    -- with the least significant byte first the word is seen backwards
    rcases h.magic with hmagic | hmagic
    · rw [number_big_of_little (by omega) hmagic]
      decide
    · rw [number_big_of_little (by omega) hmagic]
      decide

/-- A file that is an image is inspected as one, on every host. -/
theorem inspect_of_image {img : Image} (h : Image.ofBytes data = .ok img)
    (host? : Option String) : inspect host? data = img.inspect := by
  obtain ⟨order, hcommands⟩ := exists_hasCommands_of_ofBytes h
  have hlong : ¬ data.size < headerSize := by
    have hsize := hcommands.header
    unfold headerSize
    omega
  have hother : bigWord data 0 ∉ universalMagics := hcommands.not_universal
  rw [inspect, if_neg hlong, if_neg hother, inspectThin, h]

/-- Of a universal binary the selected slice is inspected, if there is one. -/
theorem inspect_of_universal {u : Universal} (h : Universal.ofBytes data = .ok u)
    (host? : Option String) :
    (inspect host? data).findings =
      match u.select? host? with
      | none => .none
      | some s => s.image.inspect.findings := by
  -- what was read starts with one of the two words, so the file is taken for a universal binary
  obtain ⟨hslices, -, -⟩ := ofBytes_eq_ok_iff.mp h
  have hlong : ¬ data.size < headerSize := Nat.not_lt.mpr hslices.header
  have hmagic : bigWord data 0 ∈ universalMagics := mem_universalMagics_iff.mpr hslices.magic
  rw [inspect, if_neg hlong, if_pos hmagic, inspectUniversal, h]
  simp only
  cases u.select? host? with
  | none => rfl
  | some s =>
    -- a line for the log comes first, and it finds nothing
    exact Findings.none_append s.image.inspect.findings

/-- The image of a slice is the one that its bytes hold by themselves. -/
theorem image_of_mem_slices {u : Universal} (h : Universal.ofBytes data = .ok u) {s : Slice}
    (hs : s ∈ u.slices) :
    Image.ofBytes (data.slice s.arch.offset (s.arch.offset + s.arch.size)) = .ok s.image := by
  obtain ⟨-, -, hslices⟩ := ofBytes_eq_ok_iff.mp h
  obtain ⟨i, hslice⟩ := exists_of_forall₂_of_mem hslices.flip hs
  rw [hslice.arch, slice_archAt]
  exact hslice.image

/-- What a universal binary holds for a host is what the bytes of the selected slice hold by
themselves, on any host. -/
theorem inspect_of_selected {u : Universal} (h : Universal.ofBytes data = .ok u)
    {host? : Option String} {s : Slice} (hs : Selected u host? s) (other? : Option String) :
    (inspect host? data).findings
      = (inspect other? (data.slice s.arch.offset (s.arch.offset + s.arch.size))).findings := by
  have himage := image_of_mem_slices h hs.mem
  rw [inspect_of_universal h host?, Universal.select?_eq_some_iff.mpr hs,
    inspect_of_image himage other?]

/-- The host that a file is looked at on: the given one, or else that of the machine. -/
def hostOf (given? : Option String) (machine : String) : Option String :=
  given?.or (architectureOfMachine? machine)

/-- In a universal binary without slices nothing is found. In any other one slice is selected: the
last one of the architecture of the host, or else the first. Its bytes by themselves hold the same
languages and the same evidence as the whole binary. -/
theorem universal_inspected_as_selected_slice {u : Universal}
    (h : Universal.ofBytes data = .ok u) (given? : Option String) (machine : String) :
    (u.slices = [] → (inspect (hostOf given? machine) data).findings = .none)
    ∧ (u.slices ≠ [] → ∃ s, Selected u (hostOf given? machine) s
        ∧ (∀ t, Selected u (hostOf given? machine) t → t = s)
        ∧ ∀ other?, (inspect (hostOf given? machine) data).findings
            = (inspect other?
                (data.slice s.arch.offset (s.arch.offset + s.arch.size))).findings) := by
  constructor
  · intro hempty
    rw [inspect_of_universal h, Universal.select?_eq_none_iff.mpr hempty]
  · intro hslices
    obtain ⟨s, hselect⟩ := Option.ne_none_iff_exists'.mp
      fun hnone => hslices (Universal.select?_eq_none_iff.mp hnone)
    have hs : Selected u (hostOf given? machine) s := Universal.select?_eq_some_iff.mp hselect
    refine ⟨s, hs, ?_, inspect_of_selected h hs⟩
    -- the search is a function, so no other slice is selected
    intro t ht
    exact Option.some.inj ((Universal.select?_eq_some_iff.mpr ht).symm.trans hselect)

/-- A universal binary of three slices. The first two are for processors of one type and load the
libraries `libobjc` and `libswift`, the last one is empty. -/
def smallUniversal : Bytes :=
  let word := fun n : UInt8 => [0, 0, 0, n]
  let entry := fun cpuType cpuSubtype offset size : UInt8 =>
    word cpuType ++ word cpuSubtype ++ word offset ++ word size ++ word 0
  let header := fun cpuType commands size : UInt8 =>
    [0xFE, 0xED, 0xFA, 0xCE] ++ word cpuType ++ word 0 ++ word 2 ++ word commands ++ word size
      ++ word 0
  let library := fun name : List UInt8 => word 0x0C ++ word 36 ++ word 24 ++ word 0 ++ word 0
    ++ word 0 ++ name ++ List.replicate (12 - name.length) 0
  let table := [0xCA, 0xFE, 0xBA, 0xBE] ++ word 3 ++ entry 7 3 68 64 ++ entry 7 8 132 64
    ++ entry 18 0 196 28
  let objc := header 7 1 36 ++ library [0x6C, 0x69, 0x62, 0x6F, 0x62, 0x6A, 0x63]
  let swift := header 7 1 36 ++ library [0x6C, 0x69, 0x62, 0x73, 0x77, 0x69, 0x66, 0x74]
  (table ++ objc ++ swift ++ header 18 0 0).toArray

/-- On an `x86` machine the second slice is looked at, the last one of that type. -/
theorem smallUniversal_inspected :
    ∃ u, Universal.ofBytes smallUniversal = .ok u ∧ ∃ s, Selected u (hostOf none "i686") s
      ∧ s.arch.offset = 132 ∧ s.arch.size = 64
      ∧ (inspect (hostOf none "i686") smallUniversal).findings
          = (inspect none (smallUniversal.slice 132 196)).findings
      ∧ (inspect none (smallUniversal.slice 132 196)).findings.languages = ["Swift"] := by
  have hrun : (Universal.ofBytes smallUniversal).toOption.bind
      (fun u => (u.select? (hostOf none "i686")).map fun s => (s.arch.offset, s.arch.size))
        = some (132, 64) := by
    decide +kernel
  have hswift : (inspect none (smallUniversal.slice 132 196)).findings.languages = ["Swift"] := by
    decide +kernel
  cases hread : Universal.ofBytes smallUniversal with
  | error e =>
    rw [hread] at hrun
    cases hrun
  | ok u =>
    rw [hread] at hrun
    obtain ⟨s, hselect, hplace⟩ := Option.map_eq_some_iff.mp hrun
    obtain ⟨hoffset, hsize⟩ := Prod.mk.inj hplace
    have hs := Universal.select?_eq_some_iff.mp hselect
    obtain ⟨-, hmain⟩ := universal_inspected_as_selected_slice hread none "i686"
    obtain ⟨t, -, honly, hsame⟩ := hmain (List.ne_nil_of_mem hs.mem)
    cases honly s hs
    have hfindings := hsame none
    rw [hoffset, hsize] at hfindings
    exact ⟨u, rfl, s, hs, hoffset, hsize, hfindings, hswift⟩

end Inspection

end Provenance.MachO
