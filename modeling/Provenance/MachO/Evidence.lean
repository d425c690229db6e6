import Provenance.Collector
import Provenance.MachO.Universal

/-!
# Evidence in Mach-O files

* `classifyLibrary?` — the language that a library speaks for.
* `Image.inspect` — the evidence in an image: sections of Swift, Go and Objective-C, and runtime
  libraries.
* `inspect` — the evidence that a file holds; of a universal binary one slice is looked at. A file
  that cannot be read gives one remark, and one that is shorter than eight bytes nothing.
* `collect` — the same evidence as it is written to a collector, rule by rule.
-/

namespace Provenance.MachO

open Collector

/-- The libraries that tell a language. -/
def libraryMarkers : List LibraryMarker := [
  ⟨"libswift", "Swift", "Swift library"⟩,
  ⟨"libobjc", "Objective-C", "Objective-C runtime"⟩,
  ⟨"libc++", "C++", "C++ runtime"⟩]

/-- The language that a library speaks for, with the evidence. -/
def classifyLibrary? (library : Text) : Option (Text × Text) :=
  markedLanguage? libraryMarkers library

namespace Image

/-- Whether the image has sections of Swift's metadata. -/
def hasSwiftSections (img : Image) : Bool := img.sectionNames.any (Text.contains · "__swift")

/-- Whether the image has a section of Go's build identification. -/
def hasGoBuildId (img : Image) : Bool :=
  img.sectionNames.any fun name => Text.contains (Text.lower name) "_go_build"

/-- Whether the image has sections of Objective-C's runtime. -/
def hasObjcSections (img : Image) : Bool := img.sectionNames.any (Text.contains · "__objc")

/-- The evidence in an image. -/
def inspect (img : Image) : Inspection :=
  .signalIf img.hasSwiftSections ["Swift"] "Found Swift metadata"
    ++ .signalIf img.hasGoBuildId ["Go"] "Found Go build ID"
    ++ .signalIf img.hasObjcSections ["Objective-C"] "Found Objective-C segments"
    ++ .ofLibraries libraryMarkers img.importedLibraries

/-- Collect the evidence in a Mach-O image. -/
def collect (img : Image) : Collector := do
  addIf img.hasSwiftSections ["Swift"] "Found Swift metadata"
  addIf img.hasGoBuildId ["Go"] "Found Go build ID"
  addIf img.hasObjcSections ["Objective-C"] "Found Objective-C segments"
  addLibraries classifyLibrary? img.importedLibraries

end Image

/-- The evidence in the slice of a universal binary that a host looks at. -/
def inspectUniversal (host? : Option String) (data : Bytes) : Inspection :=
  match Universal.ofBytes data with
  | .error e =>
    ⟨.remark ("Failed to analyse fat Mach-O file: " ++ e.message),
      ["Fat Mach-O parsing failed: " ++ e.message]⟩
  | .ok u =>
    match u.select? host? with
    | none => .noted "Universal binary has no architectures"
    | some slice =>
      .noted ("Analyzing " ++ slice.architecture ++ " slice of universal binary")
        ++ slice.image.inspect

/-- The evidence in a file that holds one image. -/
def inspectThin (data : Bytes) : Inspection :=
  match Image.ofBytes data with
  | .error e =>
    ⟨.remark ("Failed to analyse Mach-O file: " ++ e.message),
      ["Mach-O parsing failed: " ++ e.message]⟩
  | .ok img => img.inspect

/-- The evidence in a file, looked at on a host. -/
def inspect (host? : Option String) (data : Bytes) : Inspection :=
  if data.size < headerSize then .nothing
  else if bigWord data 0 ∈ universalMagics then inspectUniversal host? data
  else inspectThin data

/-- The evidence in a file whose first bytes cannot be read for the given reason. -/
def inspectUnreadable (reason : String) : Inspection :=
  .found (.remark ("Failed to read magic number: " ++ reason))

/-- Collect the evidence in a file as a Mach-O file, looked at on a host. A file that is too short
for the first words, and a universal binary without slices, leave the collector alone. -/
def collect (host? : Option String) (file : Bytes) : Collector :=
  if file.size < headerSize then pure ()
  else if bigWord file 0 ∈ universalMagics then
    match Universal.ofBytes file with
    | .error e => note ("Failed to analyse fat Mach-O file: " ++ e.message)
    | .ok u =>
      match u.select? host? with
      | none => pure ()
      | some slice => slice.image.collect
  else
    match Image.ofBytes file with
    | .error e => note ("Failed to analyse Mach-O file: " ++ e.message)
    | .ok img => img.collect

end Provenance.MachO
