import Provenance.Collector
import Provenance.Pe.Import

/-!
# Evidence in PE images

* `classifyImport?` — the languages that an imported symbol speaks for.
* `inspect` — the evidence that a file holds: .NET metadata, section names of Go, panic strings of
  Rust, and runtime libraries in the import table. A file that is no image gives one remark; a table
  that cannot be read counts as empty.
* `collect` — the same evidence as it is written to a collector, rule by rule.
-/

namespace Provenance.Pe

open Collector

/-- The languages that an imported symbol speaks for, with the evidence. -/
def classifyImport? (symbol : Text) : Option (List Text × Text) :=
  if Text.contains symbol "go_" ∨ symbol = "runtime.dll" then
    some (["Go"], "Go runtime: " ++ symbol)
  else if Text.contains symbol "Qt" then some (["C++"], "Qt framework: " ++ symbol)
  else if Text.contains symbol "msvcr" ∨ Text.contains symbol "vcruntime" then
    some (["C", "C++"], "MSVC runtime: " ++ symbol)
  else none

namespace Image

/-- Whether a section has a name that only Go uses. -/
def hasGoSections (img : Image) : Bool :=
  img.sectionNames.any fun name => Text.contains name "gofunc" || Text.contains name "goinfo"

/-- The bytes of the string that Rust programs carry for panics. -/
def rustPanicMarker : List UInt8 := "rust_panic".toUTF8.data.toList

/-- Whether a section of read-only data holds a panic string of Rust. -/
def hasRustPanic (img : Image) : Bool :=
  img.sections.any fun s =>
    Text.contains s.name ".rdata" && Text.occursIn rustPanicMarker (img.content s).toList

/-- The imported symbols, or none if they cannot be read. -/
def knownImports (img : Image) : List String :=
  img.importedSymbols.toOption.getD []

/-- The evidence in the import table; one that cannot be read gives none. -/
def inspectImports (img : Image) : Inspection :=
  match img.importedSymbols with
  | .ok symbols => .ofNames classifyImport? symbols
  | .error e => .noted ("Could not enumerate PE imports: " ++ e.message)

/-- The evidence in an image. -/
def inspect (img : Image) : Inspection :=
  .signalIf img.hasClrMetadata ["C#", "VB.NET", "F#"] "Found .NET metadata"
    ++ .signalIf img.hasGoSections ["Go"] "Found Go runtime indicators"
    ++ .signalIf img.hasRustPanic ["Rust"] "Found Rust panic strings"
    ++ img.inspectImports

/-- Collect the evidence in a PE image. -/
def collect (img : Image) : Collector := do
  addIf img.hasClrMetadata ["C#", "VB.NET", "F#"] "Found .NET metadata"
  addIf img.hasGoSections ["Go"] "Found Go runtime indicators"
  addIf img.hasRustPanic ["Rust"] "Found Rust panic strings"
  addNames classifyImport? img.knownImports

end Image

/-- The evidence in a file. -/
def inspect (data : Bytes) : Inspection :=
  match Image.ofBytes data with
  | .error e =>
    ⟨.remark ("PE parsing failed: " ++ e.message), ["PE parsing failed: " ++ e.message]⟩
  | .ok img => img.inspect

/-- Collect the evidence in a file as a PE image. -/
def collect (file : Bytes) : Collector :=
  match Image.ofBytes file with
  | .error e => note ("PE parsing failed: " ++ e.message)
  | .ok img => img.collect

end Provenance.Pe
