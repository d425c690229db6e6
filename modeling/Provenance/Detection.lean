import Provenance.Elf.Evidence
import Provenance.MachO.Evidence
import Provenance.Pe.Evidence
import Provenance.Signature
import Provenance.Verdict

/-!
# Detection

The source language of one file: its format is told from the first bytes, the structure of that
format is searched for evidence, then the start of the file for signatures, and all is weighed
together.

* `inspectStructure` — the evidence in the structure of a format.
* `detect` — the container of a file and everything found in it.
* `Step`, `collectAll` — what can be done with a collector, and a run of such steps.
-/

namespace Provenance

/-- The evidence in the structure of a file of a given format. -/
def inspectStructure (host? : Option String) (format : ContainerFormat) (file : Bytes) :
    Inspection :=
  match format with
  | .pe => Pe.inspect file
  | .elf => Elf.inspect file
  | .machO | .machOUniversal => MachO.inspect host? file
  | .javaClass | .unknown => .found (.remark "Unsupported binary format")

/-- The container of a file and what was found in it. -/
structure Detection where
  /-- The container. -/
  container : Container
  /-- What was found. -/
  inspection : Inspection
  deriving DecidableEq, Repr

namespace Detection

/-- The verdict on a file. -/
def verdict (d : Detection) : Verdict Text :=
  d.inspection.findings.verdict d.container.format d.container.platform

/-- The diagnostics of a file of a given name. -/
def log (d : Detection) (name : Text) : List Text :=
  (name ++ ": " ++ d.container.format.name ++ " (" ++ d.container.platform ++ ")")
    :: d.inspection.log

end Detection

/-- The container of a file and everything found in it, looked at on a host. A file that is shorter
than the header has none. -/
def detect (host? : Option String) (file : Bytes) : Except HeaderError Detection := do
  let container ← sniff file 0
  return ⟨container, inspectStructure host? container.format file ++ inspectSignatures file⟩

/-! ## Runs of a collector -/

/-- One step of a collector with its input. -/
inductive Step where
  /-- Record a signal for one language. -/
  | language (language evidence : Text)
  /-- Record a signal for some languages. -/
  | languages (languages : List Text) (evidence : Text)
  /-- Record a remark. -/
  | note (message : Text)
  /-- Look at a file as a PE image. -/
  | pe (file : Bytes)
  /-- Look at a file as an ELF file. -/
  | elf (file : Bytes)
  /-- Look at a file as a Mach-O file, on a host. -/
  | machO (host? : Option String) (file : Bytes)
  /-- Look at a file as a Mach-O file, although its first bytes cannot be read. -/
  | machOUnreadable (reason : String)
  /-- Look for signatures in a file. -/
  | signatures (file : Bytes)

namespace Step

/-- What a step does to the collector. -/
def collect : Step → Collector
  | language l evidence => Collector.addLanguage l evidence
  | languages ls evidence => Collector.addLanguages ls evidence
  | note message => Collector.note message
  | pe file => Pe.collect file
  | elf file => Elf.collect file
  | machO host? file => MachO.collect host? file
  | machOUnreadable reason => Collector.note ("Failed to read magic number: " ++ reason)
  | signatures file => collectSignatures file

/-- What the input of a step shows, with no collector in sight. -/
def found : Step → Findings
  | language l evidence => .signal [l] evidence
  | languages ls evidence => .signal ls evidence
  | note message => .remark message
  | pe file => (Pe.inspect file).findings
  | elf file => (Elf.inspect file).findings
  | machO host? file => (MachO.inspect host? file).findings
  | machOUnreadable reason => (MachO.inspectUnreadable reason).findings
  | signatures file => (inspectSignatures file).findings

end Step

/-- A run of steps, one after the other. -/
def collectAll (steps : List Step) : Collector := steps.forM Step.collect

end Provenance
