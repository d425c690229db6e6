import Provenance.Proofs.Elf.Reader
import Provenance.Proofs.MachO.Slices
import Provenance.Proofs.Pe.Imports

/-!
# Refused files

A reader that cannot read a file, or a table in it, says so; here is why none of its failures goes
through to the caller. Each read is at a place that the reader has computed from unsigned words, and
whether the data reach that far is looked at before the read.

* `Pe.GoesThrough`, `Elf.GoesThrough`, `MachO.GoesThrough` — a failure that the inspection of a file
  meets would go through.
* `Pe.not_goesThrough`, `Elf.not_goesThrough`, `MachO.not_goesThrough` — none does, whatever the
  file.
-/

namespace Provenance

/-! ## PE images -/

namespace Pe

/-- A failure that the inspection of a file meets goes through. -/
inductive GoesThrough (data : Bytes) : Prop
  /-- It keeps the image from being read. -/
  | image {e : ImageError} (h : Image.ofBytes data = .error e) (hescapes : Escapes e.misread?)
  /-- It keeps the import table from being read. -/
  | imports {img : Image} {e : ImportError} (himg : Image.ofBytes data = .ok img)
      (h : img.importedSymbols = .error e) (hescapes : Escapes e.misread?)

/-- **No failure goes through the inspection of a PE image.** -/
theorem not_goesThrough (data : Bytes) : ¬ GoesThrough data := by
  intro h
  cases h with
  | image h hescapes => exact Image.not_escapes_of_ofBytes h hescapes
  | imports himg h hescapes =>
    -- the sections have unsigned words, so that no address leads in front of the file
    obtain ⟨-, hparsed, -⟩ := Image.parsed_of_ofBytes himg
    have himports := map_eq_error_iff.mp h
    exact not_escapes_of_none (brokenTable_of_imports hparsed himports).2 hescapes

end Pe

/-! ## ELF files -/

namespace Elf

/-- A failure that the inspection of a file meets goes through. -/
inductive GoesThrough (data : Bytes) : Prop
  /-- It keeps the file from being read. -/
  | file {e : ImageError} (h : Image.ofBytes data = .error e) (hescapes : Escapes e.misread?)
  /-- It keeps a section header from being read. -/
  | sectionHeader {ident : Ident} {header : Header} {i : Nat} {e : RecordError}
      (hheader : Header.decode ident data = .ok header)
      (h : SectionHeader.decode ident data
        (header.sectionHeadersOffset + i * header.sectionHeaderSize) = .error e)
      (hescapes : Escapes e.misread?)
  /-- It keeps the symbols from being read. -/
  | symbols {img : Image} {e : ImageError} (himg : Image.ofBytes data = .ok img)
      (h : img.symbolNames = .error e) (hescapes : Escapes e.misread?)
  /-- It keeps the needed libraries from being read. -/
  | libraries {img : Image} {e : ImageError} (himg : Image.ofBytes data = .ok img)
      (h : img.importedLibraries = .error e) (hescapes : Escapes e.misread?)

/-- **No failure goes through the inspection of an ELF file.** -/
theorem not_goesThrough (data : Bytes) : ¬ GoesThrough data := by
  intro h
  cases h with
  | file h hescapes => exact not_escapes_of_none (Image.misread?_of_ofBytes h) hescapes
  | sectionHeader hheader h hescapes =>
    exact not_escapes_of_none (misread?_of_sectionHeader hheader h) hescapes
  | symbols _ h hescapes =>
    exact not_escapes_of_none (Image.noRecord_of_symbols (map_eq_error_iff.mp h)).misread? hescapes
  | libraries _ h hescapes =>
    exact not_escapes_of_none (Image.noRecord_of_importedLibraries h).misread? hescapes

end Elf

/-! ## Mach-O files -/

namespace MachO

/-- A failure that the inspection of a file meets goes through. -/
inductive GoesThrough (data : Bytes) : Prop
  /-- It keeps the only image from being read. -/
  | image {e : ImageError} (h : Image.ofBytes data = .error e) (hescapes : Escapes e.misread?)
  /-- It keeps the images of a universal binary from being read. -/
  | universal {e : UniversalError} (h : Universal.ofBytes data = .error e)
      (hescapes : Escapes e.misread?)

/-- **No failure goes through the inspection of a Mach-O file.** -/
theorem not_goesThrough (data : Bytes) : ¬ GoesThrough data := by
  intro h
  cases h with
  | image h hescapes => exact not_escapes_of_none (Image.misread?_of_ofBytes h) hescapes
  | universal h hescapes => exact not_escapes_of_none (misread?_of_universal h) hescapes

end MachO

end Provenance
