import Provenance.Proofs.Collector
import Provenance.Proofs.Refusals

/-!
# Detection gives a verdict

A file with a whole header gets a verdict, whatever follows the header. First comes what the
inspection of its own format finds, with nothing collected before, and then what the signatures
show. Which inspection that is, is said format by format.

* `GoesThrough` — a failure that the inspection of the structure of a file meets would go through.
* `inspectSignatures_extract` — signatures are looked for at the start of a file only.
* `Detection.FoundBy` — a detection found what one action collects, and the signatures behind it.

Main result:

* `detect_gives_verdict` — the verdict on a file of any format, and the refusal of any other file.
-/

namespace Provenance

open Collector

/-- A failure that the inspection of the structure of a file meets would go through. -/
def GoesThrough (format : ContainerFormat) (file : Bytes) : Prop :=
  match format with
  | .pe => Pe.GoesThrough file
  | .elf => Elf.GoesThrough file
  | .machO | .machOUniversal => MachO.GoesThrough file
  | .javaClass | .unknown => False

/-- No failure goes through the inspection of any format. -/
theorem not_goesThrough (format : ContainerFormat) (file : Bytes) : ¬ GoesThrough format file := by
  cases format with
  | pe => exact Pe.not_goesThrough file
  | elf => exact Elf.not_goesThrough file
  | machO => exact MachO.not_goesThrough file
  | machOUniversal => exact MachO.not_goesThrough file
  | javaClass => exact id
  | unknown => exact id

/-- Signatures are looked for at the start of a file only. -/
theorem inspectSignatures_extract (file : Bytes) :
    inspectSignatures (file.extract 0 65536) = inspectSignatures file := by
  have hhead : (file.extract 0 65536).extract 0 scanWindow = file.extract 0 scanWindow :=
    file.extract_extract_of_le (Nat.le_refl _)
  unfold inspectSignatures
  rw [hhead]

/-- The first eight bytes decide the format, if the file has them. -/
theorem sniff_eq (file : Bytes) :
    sniff file 0 =
      if 8 ≤ file.size then .ok (.ofHeader (file.extract 0 8))
      else .error (.unreadable file.size) := by
  have hsize : (file.extract 0 8).size = min 8 file.size := Array.size_extract ..
  unfold sniff
  simp only [headerSize, Nat.zero_add]
  by_cases hwhole : 8 ≤ file.size
  · rw [if_pos hwhole, if_neg (by omega)]
  · -- a file that is too short is all read, and found to be too short
    have hall : (file.extract 0 8).size = file.size := by omega
    rw [if_neg hwhole, hall, if_pos (Nat.not_le.mp hwhole)]

/-- A verdict keeps what was found, in the order in which it was found. -/
theorem verdict_keeps (found : Findings) (format : ContainerFormat) (platform : Text) :
    (found.verdict format platform).format = format
      ∧ (found.verdict format platform).platform = platform
      ∧ (found.verdict format platform).candidates = found.languages
      ∧ (found.verdict format platform).evidence = found.evidence :=
  ⟨rfl, rfl, rfl, rfl⟩

/-- A detection ran one action on the empty collector and then looked for signatures. The action
leaves what an inspection shows, and both lists of the verdict hold its contribution followed by
that of the first 65536 bytes, each as it is collected on its own. -/
structure Detection.FoundBy (d : Detection) (file : Bytes) (act : Collector) (shown : Inspection) :
    Prop where
  run : d.inspection.findings = after (act >>= fun _ => collectSignatures file) .none
  shows : act.after .none = shown.findings
  candidates : d.verdict.candidates = (act.after .none).languages
    ++ ((collectSignatures (file.extract 0 65536)).after .none).languages
  evidence : d.verdict.evidence = (act.after .none).evidence
    ++ ((collectSignatures (file.extract 0 65536)).after .none).evidence

/-- An action that appends what the structure of a file shows is the one that its detection ran. -/
theorem Detection.foundBy_of_appends {d : Detection} {file : Bytes} {act : Collector}
    {shown : Inspection} (hd : d.inspection = shown ++ inspectSignatures file)
    (hact : Appends act shown.findings) : d.FoundBy file act shown := by
  have hstart : (collectSignatures (file.extract 0 65536)).after .none
      = (inspectSignatures file).findings := by
    -- the rest of the file is not looked at, so that its start gives the same
    rw [(collectSignatures_appends _).after_none, inspectSignatures_extract]
  have hfindings : d.inspection.findings = shown.findings ++ (inspectSignatures file).findings :=
    congrArg Inspection.findings hd
  obtain ⟨-, -, hcandidates, hevidence⟩ :=
    verdict_keeps d.inspection.findings d.container.format d.container.platform
  refine ⟨?_, hact.after_none, ?_, ?_⟩
  · rw [(hact.bind (collectSignatures_appends file)).after_none, hfindings]
  · rw [hact.after_none, hstart]
    exact hcandidates.trans (congrArg Findings.languages hfindings)
  · rw [hact.after_none, hstart]
    exact hevidence.trans (congrArg Findings.evidence hfindings)

/-- **Detection gives a verdict.** A file of at least eight bytes gets one on any machine, and no
failure met on the way goes through. Its format and platform are those of its first eight bytes. A
PE image is inspected as such, and so is an ELF file and a Mach-O file, be it universal or not; a
file of any other format only gets a remark. The signatures at the start of the file come behind.
A shorter file is refused for its size. -/
theorem detect_gives_verdict (machine : String) (file : Bytes) :
    (8 ≤ file.size →
      ∃ d, detect (architectureOfMachine? machine) file = .ok d
        ∧ classify (file.extract 0 8) = .ok d.container
        ∧ d.verdict.format = d.container.format ∧ d.verdict.platform = d.container.platform
        ∧ (d.container.format = .pe → d.FoundBy file (Pe.collect file) (Pe.inspect file))
        ∧ (d.container.format = .elf → d.FoundBy file (Elf.collect file) (Elf.inspect file))
        ∧ (d.container.format = .machO ∨ d.container.format = .machOUniversal →
            d.FoundBy file (MachO.collect (architectureOfMachine? machine) file)
              (MachO.inspect (architectureOfMachine? machine) file))
        ∧ (d.container.format = .javaClass ∨ d.container.format = .unknown →
            d.FoundBy file (note "Unsupported binary format")
              (.found (.remark "Unsupported binary format")))
        ∧ ¬ GoesThrough d.container.format file)
    ∧ (file.size < 8 →
      detect (architectureOfMachine? machine) file = .error (.unreadable file.size)) := by
  unfold detect
  rw [sniff_eq]
  refine ⟨fun hwhole => ?_, fun hshort => ?_⟩
  · -- the header is all that the format and the platform depend on
    have hclassify : classify (file.extract 0 8) = .ok (.ofHeader (file.extract 0 8)) := by
      rw [classify, if_neg]
      rw [Array.size_extract, headerSize]
      omega
    rw [if_pos hwhole, hclassify]
    generalize Container.ofHeader (file.extract 0 8) = container
    refine ⟨_, rfl, rfl, rfl, rfl, ?pe, ?elf, ?machO, ?unsupported, not_goesThrough _ file⟩
    -- in each case the format says which inspection stands in front of the signatures
    case pe =>
      rintro (hformat : container.format = .pe)
      exact Detection.foundBy_of_appends (by rw [hformat]; rfl) (Pe.collect_appends file)
    case elf =>
      rintro (hformat : container.format = .elf)
      exact Detection.foundBy_of_appends (by rw [hformat]; rfl) (Elf.collect_appends file)
    case machO =>
      rintro (hformat | hformat : container.format = .machO ∨ container.format = .machOUniversal)
      · exact Detection.foundBy_of_appends (by rw [hformat]; rfl) (MachO.collect_appends _ file)
      · exact Detection.foundBy_of_appends (by rw [hformat]; rfl) (MachO.collect_appends _ file)
    case unsupported =>
      rintro (hformat | hformat : container.format = .javaClass ∨ container.format = .unknown)
      · exact Detection.foundBy_of_appends (by rw [hformat]; rfl) (appends_note _)
      · exact Detection.foundBy_of_appends (by rw [hformat]; rfl) (appends_note _)
  · rw [if_neg (Nat.not_le.mpr hshort)]
    rfl

/-- An ELF file of 32 bits with two sections, of which the second holds the names. Its own name is
the one that Go's linker gives to build information, and behind the sections stands a word that
programs in Go hold. -/
def goObject : Bytes :=
  let zeros := fun n => List.replicate n (0 : UInt8)
  let header := [0x7F, 0x45, 0x4C, 0x46, 1, 1, 1] ++ zeros 9 ++ [1, 0, 3, 0, 1, 0, 0, 0]
    ++ zeros 8 ++ [52, 0, 0, 0] ++ zeros 4 ++ [52, 0, 0, 0, 0, 0, 40, 0, 2, 0, 1, 0]
  let names := [1, 0, 0, 0] ++ [3, 0, 0, 0] ++ zeros 8 ++ [132, 0, 0, 0] ++ [16, 0, 0, 0]
    ++ zeros 8 ++ [1, 0, 0, 0] ++ zeros 4
  let strings := [0] ++ ".go.buildinfo".toUTF8.data.toList ++ [0, 0]
  (header ++ zeros 40 ++ names ++ strings ++ "runtime.main".toUTF8.data.toList).toArray

/-- The section speaks for Go, and the word behind it does so once more. -/
theorem goObject_detected :
    ∃ d, detect (architectureOfMachine? "x86_64") goObject = .ok d ∧ d.verdict.format = .elf
      ∧ d.FoundBy goObject (Elf.collect goObject) (Elf.inspect goObject)
      ∧ d.verdict.candidates = ["Go", "Go"]
      ∧ d.verdict.evidence = ["Found Go build info", "Found Go patterns in binary"] := by
  -- the first bytes say that it is an ELF file, and from then on it is one for the theorem
  have hsize : 8 ≤ goObject.size := by decide +kernel
  obtain ⟨d, hd, hclassify, hformat, -, -, helf, -⟩ :=
    (detect_gives_verdict "x86_64" goObject).1 hsize
  have hcontainer : classify (goObject.extract 0 8) = .ok ⟨.elf, "Unix/Linux"⟩ := by decide +kernel
  have hkind : d.container.format = .elf :=
    congrArg Container.format (Except.ok.inj (hclassify.symm.trans hcontainer))
  have hfound := helf hkind
  refine ⟨d, hd, hformat.trans hkind, hfound, ?_, ?_⟩
  · exact hfound.candidates.trans (by decide +kernel)
  · exact hfound.evidence.trans (by decide +kernel)

end Provenance
