import Provenance.Collector
import Provenance.Elf.Image

/-!
# Evidence in ELF files

* `classifyLibrary?` — the language that a needed library speaks for.
* `inspect` — the evidence that a file holds: the build information of Go, mangled symbols of Rust,
  and runtime libraries among the needed ones. A file that cannot be read gives one remark; a table
  that cannot be read counts as empty.
* `collect` — the same evidence as it is written to a collector, rule by rule.
-/

namespace Provenance.Elf

open Collector

/-- The libraries that tell a language. -/
def libraryMarkers : List LibraryMarker := [
  ⟨"libgo", "Go", "Go library"⟩,
  ⟨"libstdc++", "C++", "C++ stdlib"⟩,
  ⟨"libgfortran", "Fortran", "Fortran library"⟩,
  ⟨"libpython", "Python", "Python library"⟩]

/-- The language that a library speaks for, with the evidence. -/
def classifyLibrary? (library : Text) : Option (Text × Text) :=
  markedLanguage? libraryMarkers library

namespace Image

/-- Whether the file has the section of build information that Go's linker writes. -/
def hasGoBuildInfo (img : Image) : Bool := (img.findSection? ".go.buildinfo").isSome

/-- Whether a symbol has a name from Rust's core or standard library. -/
def isRustSymbol (name : String) : Bool :=
  Text.contains name "_ZN4core" || Text.contains name "_ZN3std"

/-- Whether the symbol table can be read and holds a symbol of Rust. -/
def hasRustSymbols (img : Image) : Bool :=
  match img.symbolNames with
  | .ok names => names.any isRustSymbol
  | .error _ => false

/-- The needed libraries, or none if they cannot be read. -/
def knownImports (img : Image) : List String := img.importedLibraries.toOption.getD []

/-- The evidence in the symbol table. -/
def inspectSymbols (img : Image) : Inspection :=
  match img.symbolNames with
  | .ok names => .signalIf (names.any isRustSymbol) ["Rust"] "Found Rust symbols"
  | .error e => .noted ("Could not read ELF symbol table: " ++ e.message)

/-- The evidence among the needed libraries. -/
def inspectImports (img : Image) : Inspection :=
  match img.importedLibraries with
  | .ok libraries => .ofLibraries libraryMarkers libraries
  | .error e => .noted ("Could not enumerate ELF dependencies: " ++ e.message)

/-- The evidence in a file. -/
def inspect (img : Image) : Inspection :=
  .signalIf img.hasGoBuildInfo ["Go"] "Found Go build info"
    ++ img.inspectSymbols
    ++ img.inspectImports

/-- Collect the evidence in an ELF file. -/
def collect (img : Image) : Collector := do
  addIf img.hasGoBuildInfo ["Go"] "Found Go build info"
  addIf img.hasRustSymbols ["Rust"] "Found Rust symbols"
  addLibraries classifyLibrary? img.knownImports

end Image

/-- The evidence in a file. -/
def inspect (data : Bytes) : Inspection :=
  match Image.ofBytes data with
  | .error e =>
    ⟨.remark ("ELF parsing failed: " ++ e.message), ["ELF parsing failed: " ++ e.message]⟩
  | .ok img => img.inspect

/-- Collect the evidence in a file as an ELF file. -/
def collect (file : Bytes) : Collector :=
  match Image.ofBytes file with
  | .error e => note ("ELF parsing failed: " ++ e.message)
  | .ok img => img.collect

end Provenance.Elf
