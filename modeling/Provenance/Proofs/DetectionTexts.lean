import Provenance.Detection
import Provenance.Proofs.Findings
import Provenance.Proofs.Outcome
import Provenance.Proofs.Text
import Provenance.Proofs.Verdict

/-!
# The texts of a detection are strings

A text may hold half of a surrogate pair, and then it has no bytes. Nothing that is found in a file
does: names are decoded with replacement, and all other words are given here. What an inspection
adds is looked at part by part, as findings are appended part by part.

* `Findings.IsWhole`, `Inspection.IsWhole` — no text of some findings holds a half, nor one of the
  diagnostics.
* `isWhole_inspectStructure`, `isWhole_inspectSignatures` — the findings in a file.
* `Verdict.IsWhole`, `isWhole_verdict_of_detect` — the verdict on a file.
-/

namespace Provenance

/-- Words of the program and a string behind them are a string. -/
theorem Text.isWhole_labelled (label text : String) :
    Text.isWhole (Text.ofString label ++ Text.ofString text) = true :=
  Text.isWhole_append (Text.isWhole_ofString label) (Text.isWhole_ofString text)

/-! ## Inspections -/

/-- No text of some findings holds half of a surrogate pair. -/
structure Findings.IsWhole (f : Findings) : Prop where
  languages : ∀ t ∈ f.languages, Text.isWhole t = true
  evidence : ∀ t ∈ f.evidence, Text.isWhole t = true

/-- Nor does a text of an inspection, be it found or noted. -/
abbrev Inspection.IsWhole (i : Inspection) : Prop :=
  i.Each (Text.isWhole · = true) (Text.isWhole · = true) (Text.isWhole · = true)

/-- A marker's words are strings, and so is the name of the library behind them. -/
theorem isWhole_ofLibraries (markers : List LibraryMarker) (libraries : List String) :
    (Inspection.ofLibraries markers libraries).IsWhole :=
  Inspection.each_ofLibraries fun m _ library _ =>
    ⟨Text.isWhole_ofString m.language,
      Text.isWhole_append (Text.isWhole_labelled m.label ": ") (Text.isWhole_ofString library)⟩

/-- A file that is refused is so with the message of a failure behind some words. -/
theorem isWhole_refusal (remark line message : String) :
    Inspection.IsWhole ⟨.remark (Text.ofString remark ++ Text.ofString message),
      [Text.ofString line ++ Text.ofString message]⟩ :=
  Inspection.each_remark (Text.isWhole_labelled _ _)
    (List.forall_mem_singleton.mpr (Text.isWhole_labelled _ _))

/-!
## Files

Names out of a file are decoded before they are shown, so that each text is put together from
strings.
-/

namespace Pe

/-- A line about a symbol is made of words of the program and of the name. -/
theorem isWhole_classifyImport {name : String} {languages : List Text} {evidence : Text}
    (h : classifyImport? name = some (languages, evidence)) :
    (∀ t ∈ languages, Text.isWhole t = true) ∧ Text.isWhole evidence = true := by
  -- three rules, of which the first that fits gives the line
  unfold classifyImport? at h
  split at h
  next =>
    cases h
    exact ⟨by decide, Text.isWhole_labelled _ name⟩
  next =>
    split at h
    next =>
      cases h
      exact ⟨by decide, Text.isWhole_labelled _ name⟩
    next =>
      split at h
      next =>
        cases h
        exact ⟨by decide, Text.isWhole_labelled _ name⟩
      next => cases h

/-- Every text of an inspection of a PE image is a string: those of the program, and names decoded.
-/
theorem isWhole_inspect (file : Bytes) : (inspect file).IsWhole := by
  unfold inspect
  cases Image.ofBytes file with
  | error e => exact isWhole_refusal _ _ _
  | ok img =>
    -- symbols that cannot be read leave a diagnostic only
    have himports : img.inspectImports.IsWhole := by
      unfold Image.inspectImports
      cases img.importedSymbols with
      | error e => exact Inspection.each_noted (Text.isWhole_labelled _ _)
      | ok symbols => exact Inspection.each_ofNames fun _ _ _ _ => isWhole_classifyImport
    exact (((Inspection.each_signalIf _ (by decide) (by decide)).append
      (Inspection.each_signalIf _ (by decide) (by decide))).append
        (Inspection.each_signalIf _ (by decide) (by decide))).append himports

end Pe

/-- Every text of an inspection of an ELF file is a string. -/
theorem Elf.isWhole_inspect (file : Bytes) : (inspect file).IsWhole := by
  unfold inspect
  cases Image.ofBytes file with
  | error e => exact isWhole_refusal _ _ _
  | ok img =>
    -- the symbols and the libraries are each read by themselves, and either may be refused
    have hsymbols : img.inspectSymbols.IsWhole := by
      unfold Image.inspectSymbols
      cases img.symbolNames with
      | error e => exact Inspection.each_noted (Text.isWhole_labelled _ _)
      | ok names => exact Inspection.each_signalIf _ (by decide) (by decide)
    have himports : img.inspectImports.IsWhole := by
      unfold Image.inspectImports
      cases img.importedLibraries with
      | error e => exact Inspection.each_noted (Text.isWhole_labelled _ _)
      | ok libraries => exact isWhole_ofLibraries _ libraries
    exact ((Inspection.each_signalIf _ (by decide) (by decide)).append hsymbols).append himports

namespace MachO

/-- Every text of an inspection of a Mach-O image is a string. -/
theorem Image.isWhole_inspect (img : Image) : img.inspect.IsWhole :=
  (((Inspection.each_signalIf _ (by decide) (by decide)).append
    (Inspection.each_signalIf _ (by decide) (by decide))).append
      (Inspection.each_signalIf _ (by decide) (by decide))).append
        (isWhole_ofLibraries _ _)

/-- Every text of an inspection of a Mach-O file is a string, be it universal or not. -/
theorem isWhole_inspect (host? : Option String) (file : Bytes) :
    (inspect host? file).IsWhole := by
  unfold inspect
  split
  · exact Inspection.each_nothing
  · split
    · unfold inspectUniversal
      cases Universal.ofBytes file with
      | error e => exact isWhole_refusal _ _ _
      | ok u =>
        cases hselected : u.select? host? with
        | none =>
          simp only [hselected]
          exact Inspection.each_noted (Text.isWhole_ofString _)
        | some slice =>
          simp only [hselected]
          -- the line that names the slice goes to the log
          have hline := Text.isWhole_append
            (Text.isWhole_labelled "Analyzing " slice.architecture)
            (Text.isWhole_ofString " slice of universal binary")
          exact (Inspection.each_noted hline).append slice.image.isWhole_inspect
    · unfold inspectThin
      cases Image.ofBytes file with
      | error e => exact isWhole_refusal _ _ _
      | ok img => exact img.isWhole_inspect

end MachO

/-- Every text that is told of the structure of a file is a string. -/
theorem isWhole_inspectStructure (host? : Option String) (format : ContainerFormat) (file : Bytes) :
    (inspectStructure host? format file).IsWhole := by
  cases format with
  | pe => exact Pe.isWhole_inspect file
  | elf => exact Elf.isWhole_inspect file
  | machO | machOUniversal => exact MachO.isWhole_inspect host? file
  | javaClass | unknown => exact Inspection.each_remark (Text.isWhole_ofString _) nofun

/-- Every text about a signature is a string: the words of the program and the name of a language.
-/
theorem isWhole_inspectSignatures (file : Bytes) : (inspectSignatures file).IsWhole := by
  apply Inspection.each_concat
  intro p hp
  obtain ⟨language, -, rfl⟩ := List.mem_map.mp hp
  have hlanguage := Text.isWhole_ofString language
  -- the number of bytes is spelled in digits
  have hline := Text.isWhole_append (Text.isWhole_append (Text.isWhole_append
    (Text.isWhole_labelled "Pattern hit for " language) (Text.isWhole_ofString " in first "))
      (Text.isWhole_ofString (toString (file.extract 0 scanWindow).size)))
        (Text.isWhole_ofString " bytes")
  exact Inspection.each_signal (List.forall_mem_singleton.mpr hlanguage)
    (Text.isWhole_append (Text.isWhole_labelled _ _) (Text.isWhole_ofString _))
    (List.forall_mem_singleton.mpr hline)

/-!
## Verdicts

The language of a verdict is one of those found, or the one for an empty list.
-/

/-- No text of a verdict holds half of a surrogate pair. -/
structure Verdict.IsWhole (v : Verdict Text) : Prop where
  language : Text.isWhole v.language = true
  candidates : ∀ t ∈ v.candidates, Text.isWhole t = true
  evidence : ∀ t ∈ v.evidence, Text.isWhole t = true
  platform : Text.isWhole v.platform = true

/-- A verdict on findings without halves has none: its language is one of them, or unknown. -/
theorem Findings.IsWhole.verdict {found : Findings} (h : found.IsWhole) (format : ContainerFormat)
    {platform : Text} (hplatform : Text.isWhole platform = true) :
    (found.verdict format platform).IsWhole :=
  ⟨language_of_forall (Text.isWhole_ofString _) h.languages _ _, h.languages, h.evidence,
    hplatform⟩

/-- Every text of the verdict on a file is a string. -/
theorem isWhole_verdict_of_detect {host? : Option String} {file : Bytes} {found : Detection}
    (h : detect host? file = .ok found) : found.verdict.IsWhole := by
  obtain ⟨container, -, hfound⟩ := bind_eq_ok_iff.mp h
  cases hfound
  -- the verdict has its texts from the inspections, one of the structure and one of the signatures
  have hinspected := (isWhole_inspectStructure host? container.format file).append
    (isWhole_inspectSignatures file)
  have hfindings : Findings.IsWhole _ := ⟨hinspected.languages, hinspected.evidence⟩
  exact hfindings.verdict _ (Text.isWhole_ofString _)

end Provenance
