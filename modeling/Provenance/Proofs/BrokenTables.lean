import Provenance.Proofs.Collector
import Provenance.Proofs.Elf.Tables
import Provenance.Proofs.Findings
import Provenance.Proofs.Refusals

/-!
# What a broken file leaves behind

A file that cannot be read leaves one remark in the collector. A file that can be read may still
have a table that cannot, and then nothing of that table is left, not even of the entries in front
of the fault, while all other rules find what they would find without it.

* `LeavesRemark` — all that an action does is to record one remark, which is all that the inspection
  shows.
* `Skips` — an action leaves some findings, no line of which is a failure, and another one, which
  has nothing to skip, leaves the same; so do the inspections.
* `Pe.Image.withoutImports`, `Elf.Image.withoutType` — the same file with a table missing.
* `Pe.skips_imports`, `Elf.skips_symbols`, `Elf.skips_libraries` — a table that cannot be read is
  skipped as if it were missing.

Main result:

* `broken_part_leaves_the_rest` — this for every file, whatever has been collected before.
-/

namespace Provenance

open Collector

/-!
## What an action leaves

Collecting appends what the inspection of the same file shows. A statement about one is therefore a
statement about the other, and both are put side by side here.
-/

/-- All that an action does is to record one remark, and the inspection shows nothing else. -/
structure LeavesRemark (act : Collector) (shown : Inspection) (message : Text) : Prop where
  leaves : ∀ before : Findings,
    act.after before = ⟨before.languages, before.evidence ++ [message]⟩
  shows : shown.findings = .remark message

/-- An action leaves some findings, no line of which begins like a failure, and another action
leaves the same. The inspections show what the actions leave. -/
structure Skips (act other : Collector) (shown otherShown : Inspection) (failure : Text)
    (rest : Findings) : Prop where
  leaves : ∀ before : Findings, act.after before = before ++ rest
  same : ∀ before : Findings, other.after before = before ++ rest
  shows : shown.findings = rest
  sameShown : otherShown.findings = rest
  noFailure : ∀ line ∈ rest.evidence, ¬ failure <+: line

/-- An inspection that shows one remark has an action that records it. -/
theorem leavesRemark_of_appends {act : Collector} {shown : Inspection} {message : Text}
    (hact : Appends act shown.findings) (hshows : shown.findings = .remark message) :
    LeavesRemark act shown message where
  -- the two lists are appended to each on its own, and a remark adds nothing to the languages
  leaves := by
    intro before
    rw [hact.after_eq, hshows]
    show (⟨before.languages ++ [], before.evidence ++ [message]⟩ : Findings) = _
    rw [List.append_nil]
  shows := hshows

/-!
## First letters

What is said of a failure begins with a letter that no rule begins its lines with. That is enough to
see that the failure is not among the evidence.
-/

/-- No line of the evidence begins with a code point. -/
def Findings.NoLineFrom (c : CodePoint) (f : Findings) : Prop :=
  ∀ line ∈ f.evidence, line.head? ≠ some c

namespace Findings

variable {c : CodePoint}

theorem noLineFrom_none : none.NoLineFrom c := nofun

theorem NoLineFrom.append {a b : Findings} (ha : a.NoLineFrom c) (hb : b.NoLineFrom c) :
    (a ++ b).NoLineFrom c :=
  List.forall_mem_append.mpr ⟨ha, hb⟩

/-- A signal has one line or none, and its evidence is that line. -/
theorem noLineFrom_signalIf (holds : Bool) (languages : List Text) {evidence : Text}
    (h : evidence.head? ≠ some c) :
    (Inspection.signalIf holds languages evidence).findings.NoLineFrom c := by
  cases holds with
  | false => exact noLineFrom_none
  | true => exact List.forall_mem_singleton.mpr h

/-- A line about a library begins with the label of its marker. -/
theorem noLineFrom_ofLibraries {markers : List LibraryMarker}
    (h : ∀ m ∈ markers, ∃ d ≠ c, (Text.ofString m.label).head? = some d) (libraries : List String) :
    (Inspection.ofLibraries markers libraries).findings.NoLineFrom c := by
  have heach : (Inspection.ofLibraries markers libraries).Each (fun _ => True)
      (fun line => line.head? ≠ some c) (fun _ => True) := by
    refine Inspection.each_ofLibraries fun m hm library _ => ⟨trivial, ?_⟩
    -- the first letter of the label is the first letter of the line
    obtain ⟨d, hd, hlabel⟩ := h m hm
    rw [List.append_assoc, List.head?_append, hlabel]
    exact fun heq => hd (Option.some.inj heq)
  exact heach.evidence

/-- A failure begins with its own first letter. -/
theorem NoLineFrom.not_prefix {f : Findings} (h : f.NoLineFrom c) {failure : Text}
    (hfailure : failure.head? = some c) : ∀ line ∈ f.evidence, ¬ failure <+: line := by
  rintro line hline ⟨rest, rfl⟩
  apply h _ hline
  rw [List.head?_append, hfailure]
  rfl

end Findings

/-- Two inspections that show the same findings have actions that leave the same. -/
theorem skips_of_appends {act other : Collector} {shown otherShown : Inspection} {rest : Findings}
    (hact : Appends act shown.findings) (hother : Appends other otherShown.findings)
    (hshows : shown.findings = rest) (hsame : otherShown.findings = rest) {c : CodePoint}
    (hlines : rest.NoLineFrom c) {failure : Text} (hfailure : failure.head? = some c) :
    Skips act other shown otherShown failure rest where
  leaves := hshows ▸ hact.after_eq
  same := hsame ▸ hother.after_eq
  shows := hshows
  sameShown := hsame
  noFailure := hlines.not_prefix hfailure

/-!
## PE images

The image without its import table is compared with the image itself. The other rules give the same
for both.
-/

namespace Pe

/-- An image with no address for its import table. -/
def Image.withoutImports (img : Image) : Image :=
  { img with directories := img.directories.set 1 ⟨0, 0⟩ }

/-- What the rules find that do not look at the import table. -/
def Image.ruleFindings (img : Image) : Findings :=
  (Inspection.signalIf img.hasClrMetadata ["C#", "VB.NET", "F#"] "Found .NET metadata").findings
    ++ (Inspection.signalIf img.hasGoSections ["Go"] "Found Go runtime indicators").findings
    ++ (Inspection.signalIf img.hasRustPanic ["Rust"] "Found Rust panic strings").findings

/-- Without an address of the import table there is nothing to walk through, and no symbol is
imported. -/
theorem importedSymbols_withoutImports (img : Image) :
    img.withoutImports.importedSymbols = .ok [] := by
  have hdirectory : ∀ directory,
      img.withoutImports.directory? Image.importDirectory = some directory →
        directory.virtualAddress = 0 := by
    intro directory hget
    change (img.directories.set 1 ⟨0, 0⟩)[1]? = some directory at hget
    obtain ⟨hlength, hset⟩ := List.getElem?_eq_some_iff.mp hget
    rw [List.getElem_set_self] at hset
    rw [← hset]
  -- no directory at all and a directory at no address come to the same
  have hnone : img.withoutImports.imports = .ok [] := by
    unfold Image.imports Image.mapDescriptors
    cases hget : img.withoutImports.directory? Image.importDirectory with
    | none => rfl
    | some directory => exact if_pos (hdirectory directory hget)
  rw [Image.importedSymbols, hnone]
  rfl

/-- The other rules do not ask for the import table. -/
theorem ruleFindings_withoutImports (img : Image) :
    img.withoutImports.ruleFindings = img.ruleFindings := by
  -- the directory of an assembly is another one
  have hclr : img.withoutImports.hasClrMetadata = img.hasClrMetadata := by
    have hget : (img.directories.set 1 ⟨0, 0⟩)[14]? = img.directories[14]? :=
      List.getElem?_set_ne (by decide)
    exact congrArg (Option.any _) hget
  rw [Image.ruleFindings, Image.ruleFindings, hclr]
  rfl

/-- In an image that is read, the image is all that is inspected. -/
theorem inspect_of_image {file : Bytes} {img : Image} (h : Image.ofBytes file = .ok img) :
    inspect file = img.inspect := by
  unfold inspect
  rw [h]

/-- With nothing found in the import table the other rules are all that counts. -/
theorem findings_of_no_imports {img : Image} (h : img.inspectImports.findings = .none) :
    img.inspect.findings = img.ruleFindings := by
  have hfindings : img.inspect.findings = img.ruleFindings ++ img.inspectImports.findings := rfl
  rw [hfindings, h, Findings.append_none]

/-- An import table that cannot be read is skipped as if the image had none. -/
theorem skips_imports {file : Bytes} {img : Image} {e : ImportError}
    (himg : Image.ofBytes file = .ok img) (h : img.importedSymbols = .error e) :
    Skips (collect file) img.withoutImports.collect (inspect file) img.withoutImports.inspect
      "PE parsing failed: " img.ruleFindings := by
  -- in the file, the failure is dropped, and with it the symbols in front of it
  have hshows : (inspect file).findings = img.ruleFindings := by
    rw [inspect_of_image himg]
    refine findings_of_no_imports ?_
    rw [Image.inspectImports, h]
    rfl
  -- in the other image, there was nothing to read
  have hsame : img.withoutImports.inspect.findings = img.ruleFindings := by
    rw [← ruleFindings_withoutImports]
    refine findings_of_no_imports ?_
    rw [Image.inspectImports, importedSymbols_withoutImports]
    rfl
  -- the three rules speak of what was found, so that no line of theirs begins with a failure
  have hlines : img.ruleFindings.NoLineFrom (.char 'P') :=
    ((Findings.noLineFrom_signalIf _ _ (by decide)).append
      (Findings.noLineFrom_signalIf _ _ (by decide))).append
        (Findings.noLineFrom_signalIf _ _ (by decide))
  exact skips_of_appends (collect_appends file) img.withoutImports.collect_appends hshows hsame
    hlines (by decide)

end Pe

/-!
## ELF files

A table is taken away by giving its sections another type. Nothing else is asked for a section of
this type, so that the other rules give the same.
-/

namespace Elf

/-- A section, with no type if it is of a given one. -/
def Section.retyped (type : Int) (s : Section) : Section :=
  if s.header.type = type then { s with header := { s.header with type := 0 } } else s

/-- A file whose sections of a type have no type. -/
def Image.withoutType (type : Int) (img : Image) : Image :=
  { img with sections := img.sections.map (·.retyped type) }

variable {img : Image} {type other : Int}

theorem Section.name_retyped (type : Int) (s : Section) : (s.retyped type).name = s.name := by
  unfold retyped
  split <;> rfl

theorem Section.type_retyped (type : Int) (s : Section) :
    (s.retyped type).header.type = if s.header.type = type then 0 else s.header.type := by
  unfold retyped
  split <;> rfl

theorem sectionNames_withoutType (type : Int) (img : Image) :
    (img.withoutType type).sectionNames = img.sectionNames := by
  unfold Image.sectionNames Image.withoutType
  rw [List.map_map]
  exact List.map_congr_left fun s _ => s.name_retyped type

/-- No section is of the type any more. -/
theorem sectionOfType?_withoutType (img : Image) (h : type ≠ 0) :
    -- each section has either lost the type or never had it
    (img.withoutType type).sectionOfType? type = none := by
  rw [Image.sectionOfType?, List.find?_eq_none]
  intro t ht
  obtain ⟨s, -, rfl⟩ := List.mem_map.mp ht
  rw [decide_eq_true_eq, s.type_retyped]
  split
  next => exact Ne.symm h
  next hne => exact hne

/-- A section of another type is found as before. -/
theorem sectionOfType?_withoutType_of_ne (img : Image) (hne : other ≠ type) (h : other ≠ 0) :
    (img.withoutType type).sectionOfType? other = img.sectionOfType? other := by
  have hkept : ∀ s : Section, (s.retyped type).header.type = other ↔ s.header.type = other := by
    intro s
    rw [s.type_retyped]
    split
    next htype =>
      rw [htype]
      exact ⟨fun heq => absurd heq.symm h, fun heq => absurd heq.symm hne⟩
    next => exact Iff.rfl
  unfold Image.sectionOfType? Image.withoutType
  -- the search stops at the same section, whose header it then finds as it was
  rw [List.find?_map]
  simp only [Function.comp_def, hkept]
  cases hfind : img.sections.find? (·.header.type = other) with
  | none => rfl
  | some s =>
    have htype : s.header.type = other := by simpa using List.find?_some hfind
    rw [Option.map_some, Section.retyped, if_neg (by rw [htype]; exact hne)]

/-- A string table that a section is linked to is found as before. -/
theorem linkedStrings_withoutType (img : Image) (h : type ≠ 3) (s : Section) :
    (img.withoutType type).linkedStrings s = img.linkedStrings s := by
  -- the number of a section does not depend on the types of the sections
  have hget : (img.withoutType type).section? s.header.link
      = (img.section? s.header.link).map (·.retyped type) := by
    unfold Image.section? Image.withoutType
    split
    next => rfl
    next => rw [List.getElem?_map]
  unfold Image.linkedStrings stringTableType
  rw [hget]
  cases img.section? s.header.link with
  | none => rfl
  | some t =>
    simp only [Option.map_some, t.type_retyped]
    by_cases htype : t.header.type = type
    · -- neither type is that of a string table
      rw [if_pos htype, if_neg (by decide), if_neg (by rw [htype]; exact h)]
    · rw [if_neg htype, Section.retyped, if_neg htype]
      rfl

/-- Only the table of the type itself is missing. -/
theorem readTable_withoutType_of_ne {α : Type} (img : Image) (hne : other ≠ type) (h : other ≠ 0)
    (hstrings : type ≠ 3) (build : Bytes → Bytes → Except ImageError (List α)) :
    readTable (img.withoutType type) other build = readTable img other build := by
  unfold readTable
  rw [sectionOfType?_withoutType_of_ne img hne h]
  cases img.sectionOfType? other with
  | none => rfl
  | some s =>
    simp only [linkedStrings_withoutType img hstrings]
    rfl

theorem symbols_withoutType (img : Image) : (img.withoutType 2).symbols = .ok [] := by
  rw [symbols_eq_readTable, readTable, sectionOfType?_withoutType img (by decide)]

/-- The symbols are read as before if another type is taken away, and the string tables stay. -/
theorem symbols_withoutType_of_ne (img : Image) (hne : 2 ≠ type) (hstrings : type ≠ 3) :
    (img.withoutType type).symbols = img.symbols := by
  rw [symbols_eq_readTable, symbols_eq_readTable]
  exact readTable_withoutType_of_ne img hne (by decide) hstrings _

theorem importedLibraries_withoutType (img : Image) :
    (img.withoutType 6).importedLibraries = .ok [] := by
  rw [importedLibraries_eq_readTable, readTable, sectionOfType?_withoutType img (by decide)]

/-- The libraries are read as before if another type is taken away, and the string tables stay. -/
theorem importedLibraries_withoutType_of_ne (img : Image) (hne : 6 ≠ type) (hstrings : type ≠ 3) :
    (img.withoutType type).importedLibraries = img.importedLibraries := by
  rw [importedLibraries_eq_readTable, importedLibraries_eq_readTable]
  exact readTable_withoutType_of_ne img hne (by decide) hstrings _

/-- What the rule on section names finds. -/
def Image.goFindings (img : Image) : Findings :=
  (Inspection.signalIf img.hasGoBuildInfo ["Go"] "Found Go build info").findings

theorem goFindings_withoutType (type : Int) (img : Image) :
    (img.withoutType type).goFindings = img.goFindings := by
  rw [Image.goFindings, Image.goFindings,
    Contents.hasGoBuildInfo_congr (sectionNames_withoutType type img)]

/-- In a file that is read, the sections, symbols and libraries are all that is inspected. -/
theorem inspect_of_image {file : Bytes} (h : Image.ofBytes file = .ok img) :
    inspect file = img.inspect := by
  unfold inspect
  rw [h]

theorem inspect_findings (img : Image) :
    img.inspect.findings
      = img.goFindings ++ img.inspectSymbols.findings ++ img.inspectImports.findings :=
  rfl

/-- With nothing found among the symbols, the sections and the libraries are all that counts. -/
theorem findings_of_no_symbols (h : img.inspectSymbols.findings = .none) :
    img.inspect.findings = img.goFindings ++ img.inspectImports.findings := by
  rw [inspect_findings, h, Findings.append_none]

/-- With nothing found among the libraries, the sections and the symbols are all that counts. -/
theorem findings_of_no_libraries (h : img.inspectImports.findings = .none) :
    img.inspect.findings = img.goFindings ++ img.inspectSymbols.findings := by
  rw [inspect_findings, h, Findings.append_none]

theorem noLineFrom_goFindings (img : Image) : img.goFindings.NoLineFrom (.char 'E') :=
  Findings.noLineFrom_signalIf _ _ (by decide)

/-- The line on symbols does not begin with a failure, and symbols that cannot be read leave none.
-/
theorem noLineFrom_inspectSymbols (img : Image) :
    img.inspectSymbols.findings.NoLineFrom (.char 'E') := by
  unfold Image.inspectSymbols
  split
  next => exact Findings.noLineFrom_signalIf _ _ (by decide)
  next => exact Findings.noLineFrom_none

/-- The lines on libraries do not begin with a failure, each of them having a label in front. -/
theorem noLineFrom_inspectImports (img : Image) :
    img.inspectImports.findings.NoLineFrom (.char 'E') := by
  unfold Image.inspectImports
  split
  next libraries _ =>
    refine Findings.noLineFrom_ofLibraries ?_ libraries
    simp only [libraryMarkers, List.forall_mem_cons]
    -- one first letter for each marker in the list
    exact ⟨⟨.char 'G', by decide, by decide⟩, ⟨.char 'C', by decide, by decide⟩,
      ⟨.char 'F', by decide, by decide⟩, ⟨.char 'P', by decide, by decide⟩, nofun⟩
  next => exact Findings.noLineFrom_none

/-- A symbol table that cannot be read is skipped as if no section were of its type. -/
theorem skips_symbols {file : Bytes} {e : ImageError} (himg : Image.ofBytes file = .ok img)
    (h : img.symbols = .error e) :
    Skips (collect file) (img.withoutType 2).collect (inspect file) (img.withoutType 2).inspect
      "ELF parsing failed: " (img.goFindings ++ img.inspectImports.findings) := by
  have hshows : (inspect file).findings = img.goFindings ++ img.inspectImports.findings := by
    rw [inspect_of_image himg]
    refine findings_of_no_symbols ?_
    rw [Image.inspectSymbols, Image.symbolNames, h]
    rfl
  have hsame : (img.withoutType 2).inspect.findings
      = img.goFindings ++ img.inspectImports.findings := by
    -- the libraries are in a section of another type
    have himports : (img.withoutType 2).inspectImports = img.inspectImports := by
      rw [Image.inspectImports, Image.inspectImports,
        importedLibraries_withoutType_of_ne img (by decide) (by decide)]
    rw [← goFindings_withoutType 2 img, ← himports]
    refine findings_of_no_symbols ?_
    rw [Image.inspectSymbols, Image.symbolNames, symbols_withoutType]
    rfl
  have hlines := (noLineFrom_goFindings img).append (noLineFrom_inspectImports img)
  exact skips_of_appends (collect_appends file) (img.withoutType 2).collect_appends hshows hsame
    hlines (by decide)

/-- A table of needed libraries that cannot be read is skipped as if no section were of its type. -/
theorem skips_libraries {file : Bytes} {e : ImageError} (himg : Image.ofBytes file = .ok img)
    (h : img.importedLibraries = .error e) :
    Skips (collect file) (img.withoutType 6).collect (inspect file) (img.withoutType 6).inspect
      "ELF parsing failed: " (img.goFindings ++ img.inspectSymbols.findings) := by
  have hshows : (inspect file).findings = img.goFindings ++ img.inspectSymbols.findings := by
    rw [inspect_of_image himg]
    refine findings_of_no_libraries ?_
    rw [Image.inspectImports, h]
    rfl
  have hsame : (img.withoutType 6).inspect.findings
      = img.goFindings ++ img.inspectSymbols.findings := by
    -- the symbols are in a section of another type
    have hsymbols : (img.withoutType 6).inspectSymbols = img.inspectSymbols := by
      rw [Image.inspectSymbols, Image.inspectSymbols, Image.symbolNames, Image.symbolNames,
        symbols_withoutType_of_ne img (by decide) (by decide)]
    rw [← goFindings_withoutType 6 img, ← hsymbols]
    refine findings_of_no_libraries ?_
    rw [Image.inspectImports, importedLibraries_withoutType]
    rfl
  have hlines := (noLineFrom_goFindings img).append (noLineFrom_inspectSymbols img)
  exact skips_of_appends (collect_appends file) (img.withoutType 6).collect_appends hshows hsame
    hlines (by decide)

end Elf

/-! ## Files that cannot be read -/

/-- A PE image that is refused leaves the words of its reader. -/
theorem Pe.leavesRemark {file : Bytes} {e : ImageError} (h : Image.ofBytes file = .error e) :
    LeavesRemark (collect file) (inspect file) ("PE parsing failed: " ++ e.message) := by
  refine leavesRemark_of_appends (collect_appends file) ?_
  unfold inspect
  rw [h]

/-- An ELF file that is refused leaves the words of its reader. -/
theorem Elf.leavesRemark {file : Bytes} {e : ImageError} (h : Image.ofBytes file = .error e) :
    LeavesRemark (collect file) (inspect file) ("ELF parsing failed: " ++ e.message) := by
  refine leavesRemark_of_appends (collect_appends file) ?_
  unfold inspect
  rw [h]

/-- The first word decides that the file is read as a universal binary. -/
theorem MachO.leavesRemark_of_universal {file : Bytes} (hsize : 8 ≤ file.size)
    (hmagic : bigWord file 0 ∈ universalMagics) {e : UniversalError}
    (h : Universal.ofBytes file = .error e) (host? : Option String) :
    LeavesRemark (collect host? file) (inspect host? file)
      ("Failed to analyse fat Mach-O file: " ++ e.message) := by
  have hlong : ¬ file.size < Provenance.headerSize := Nat.not_lt.mpr hsize
  refine leavesRemark_of_appends (collect_appends host? file) ?_
  rw [inspect, if_neg hlong, if_pos hmagic, inspectUniversal, h]

/-- Any other first word lets the file be read as one image. -/
theorem MachO.leavesRemark_of_image {file : Bytes} (hsize : 8 ≤ file.size)
    (hmagic : bigWord file 0 ∉ universalMagics) {e : ImageError}
    (h : Image.ofBytes file = .error e) (host? : Option String) :
    LeavesRemark (collect host? file) (inspect host? file)
      ("Failed to analyse Mach-O file: " ++ e.message) := by
  have hlong : ¬ file.size < Provenance.headerSize := Nat.not_lt.mpr hsize
  refine leavesRemark_of_appends (collect_appends host? file) ?_
  rw [inspect, if_neg hlong, if_neg hmagic, inspectThin, h]

/-- **What cannot be read costs nothing else.** A file that is refused leaves one remark, with the
words of the reader, and no language; no failure goes through to the caller. In a file that is read,
a table that cannot be read leaves nothing at all, and the other rules find what they find in the
same file without the table. -/
theorem broken_part_leaves_the_rest (file : Bytes) :
    (∀ e, Pe.Image.ofBytes file = .error e →
      ¬ Escapes e.misread?
        ∧ LeavesRemark (Pe.collect file) (Pe.inspect file) ("PE parsing failed: " ++ e.message))
    ∧ (∀ e, Elf.Image.ofBytes file = .error e →
      ¬ Escapes e.misread?
        ∧ LeavesRemark (Elf.collect file) (Elf.inspect file)
            ("ELF parsing failed: " ++ e.message))
    ∧ (8 ≤ file.size → ∀ host? : Option String,
      (bigWord file 0 ∈ universalMagics → ∀ e, MachO.Universal.ofBytes file = .error e →
        ¬ Escapes e.misread? ∧ LeavesRemark (MachO.collect host? file) (MachO.inspect host? file)
          ("Failed to analyse fat Mach-O file: " ++ e.message))
      ∧ (bigWord file 0 ∉ universalMagics → ∀ e, MachO.Image.ofBytes file = .error e →
        ¬ Escapes e.misread? ∧ LeavesRemark (MachO.collect host? file) (MachO.inspect host? file)
          ("Failed to analyse Mach-O file: " ++ e.message)))
    ∧ (∀ img, Pe.Image.ofBytes file = .ok img → ∀ e, img.importedSymbols = .error e →
      ¬ Escapes e.misread? ∧ img.withoutImports.importedSymbols = .ok []
        ∧ Skips (Pe.collect file) img.withoutImports.collect (Pe.inspect file)
          img.withoutImports.inspect "PE parsing failed: " img.ruleFindings)
    ∧ (∀ img, Elf.Image.ofBytes file = .ok img →
      (∀ e, img.symbols = .error e →
        ¬ Escapes e.misread? ∧ (img.withoutType 2).symbols = .ok []
          ∧ Skips (Elf.collect file) (img.withoutType 2).collect (Elf.inspect file)
            (img.withoutType 2).inspect "ELF parsing failed: "
            (img.goFindings ++ img.inspectImports.findings))
      ∧ (∀ e, img.importedLibraries = .error e →
        ¬ Escapes e.misread? ∧ (img.withoutType 6).importedLibraries = .ok []
          ∧ Skips (Elf.collect file) (img.withoutType 6).collect (Elf.inspect file)
            (img.withoutType 6).inspect "ELF parsing failed: "
            (img.goFindings ++ img.inspectSymbols.findings))) := by
  -- the files that are refused come from the readers, the tables from what is known of the images
  refine ⟨?pe, ?elf, ?machO, ?peTable, ?elfTables⟩
  case pe =>
    intro e h
    exact ⟨Pe.Image.not_escapes_of_ofBytes h, Pe.leavesRemark h⟩
  case elf =>
    intro e h
    exact ⟨not_escapes_of_none (Elf.Image.misread?_of_ofBytes h), Elf.leavesRemark h⟩
  case machO =>
    intro hsize host?
    refine ⟨fun hmagic e h => ?_, fun hmagic e h => ?_⟩
    · exact ⟨not_escapes_of_none (MachO.misread?_of_universal h),
        MachO.leavesRemark_of_universal hsize hmagic h host?⟩
    · exact ⟨not_escapes_of_none (MachO.Image.misread?_of_ofBytes h),
        MachO.leavesRemark_of_image hsize hmagic h host?⟩
  case peTable =>
    intro img himg e h
    obtain ⟨-, hparsed, -⟩ := Pe.Image.parsed_of_ofBytes himg
    have hmisread := (Pe.brokenTable_of_imports hparsed (map_eq_error_iff.mp h)).2
    exact ⟨not_escapes_of_none hmisread, Pe.importedSymbols_withoutImports img,
      Pe.skips_imports himg h⟩
  case elfTables =>
    intro img himg
    refine ⟨fun e h => ?_, fun e h => ?_⟩
    · exact ⟨not_escapes_of_none (Elf.Image.noRecord_of_symbols h).misread?,
        Elf.symbols_withoutType img, Elf.skips_symbols himg h⟩
    · exact ⟨not_escapes_of_none (Elf.Image.noRecord_of_importedLibraries h).misread?,
        Elf.importedLibraries_withoutType img, Elf.skips_libraries himg h⟩

/-- An image with a section that only Go uses, and an import table that is broken behind the library
`Qt`: the name of the next library is not in the file. -/
def brokenImage : Bytes :=
  let bytes := Pe.smallImage.toList
  (bytes.take 200 ++ [0x67, 0x6F, 0x66, 0x75, 0x6E, 0x63] ++ (bytes.drop 206).take 66 ++ [1]
    ++ (bytes.drop 273).take 23 ++ [0x51, 0x74]).toArray

/-- The library in front of the fault does not count. -/
theorem brokenImage_collected :
    (∃ img, Pe.Image.ofBytes brokenImage = .ok img
      ∧ img.importedSymbols = .error (.nameUnmapped 1))
    ∧ (Pe.inspect brokenImage).findings = .signal ["Go"] "Found Go runtime indicators"
    ∧ (Pe.collect brokenImage).after ⟨["C"], ["Found C patterns in binary"]⟩
      = ⟨["C", "Go"], ["Found C patterns in binary", "Found Go runtime indicators"]⟩ := by
  -- what is asked of the image is computed in one go, and what it was computed from is named then
  have hrun : (Pe.Image.ofBytes brokenImage).toOption.map
      (fun img => (img.importedSymbols, img.ruleFindings))
        = some (.error (.nameUnmapped 1), .signal ["Go"] "Found Go runtime indicators") := by
    decide +kernel
  cases himg : Pe.Image.ofBytes brokenImage with
  | error e =>
    rw [himg] at hrun
    cases hrun
  | ok img =>
    rw [himg] at hrun
    obtain ⟨hbroken, hrules⟩ := Prod.mk.inj (Option.some.inj hrun)
    obtain ⟨-, -, -, htable, -⟩ := broken_part_leaves_the_rest brokenImage
    obtain ⟨-, -, hskips⟩ := htable img himg _ hbroken
    refine ⟨⟨img, rfl, hbroken⟩, hskips.shows.trans hrules, ?_⟩
    rw [hskips.leaves, hrules]
    rfl

end Provenance
