import Provenance.Detection
import Provenance.Proofs.Elf.Reader
import Provenance.Proofs.Findings
import Provenance.Proofs.Lines
import Provenance.Proofs.MachO.ArchitectureNames

/-!
# The wording of evidence

What a line of evidence or of diagnostics is made of. The words of the program are on one line; a
name out of the file is put between them as it is, whatever characters it has.

* `Text.Worded` — a text on one line, or a name between two such texts.
* `quotedNames` — the names out of a file that its evidence can quote: imported symbols, libraries,
  and the segment that a Mach-O image is refused for. No other name of a section or a symbol is
  among them.
* `diagnosedNames` — the sections of an ELF file that only the diagnostics name.
* `Pe.worded_inspect`, `Elf.worded_inspect`, `MachO.worded_inspect` — the evidence in the structure
  of a file, format by format.
* `worded_inspectSignatures` — the signatures quote nothing.
-/

namespace Provenance

/-!
## Words and names

A text of the program is made of fixed words, of numbers and of names out of a file. Only the names
can hold a line end.
-/

namespace Text

/-- A text is on one line, or it is one of some names between two texts on one line. -/
inductive Worded (names : List String) : Text → Prop
  /-- All of it is on one line. -/
  | plain {text : Text} (h : SingleLine text) : Worded names text
  /-- A name is quoted as it is. -/
  | quoting {name : String} {front back : Text} (hname : name ∈ names) (hfront : SingleLine front)
      (hback : SingleLine back) : Worded names (front ++ ofString name ++ back)

variable {names : List String}

/-- Only a name brings line ends in. -/
theorem Worded.singleLine {text : Text} (h : Worded names text)
    (hnames : ∀ name ∈ names, SingleLine (ofString name)) : SingleLine text := by
  cases h with
  | plain h => exact h
  | quoting hname hfront hback => exact (hfront.append (hnames _ hname)).append hback

theorem Worded.mono {text : Text} (h : Worded names text) {more : List String}
    (hmore : names ⊆ more) : Worded more text := by
  cases h with
  | plain h => exact .plain h
  | quoting hname hfront hback => exact .quoting (hmore hname) hfront hback

theorem worded_labelled {label : Text} (hlabel : SingleLine label) {name : String}
    (hname : name ∈ names) : Worded names (label ++ ofString name) := by
  have hback : SingleLine [] := nofun
  have hworded := Worded.quoting hname hlabel hback
  rwa [List.append_nil] at hworded

/-- A text that is worded with some names is so behind a label, too. -/
theorem Worded.behind {label text : Text} (hlabel : SingleLine label) (h : Worded names text) :
    Worded names (label ++ text) := by
  cases h with
  | plain h => exact .plain (hlabel.append h)
  | quoting hname hfront hback =>
    rw [← List.append_assoc, ← List.append_assoc]
    exact .quoting hname (hlabel.append hfront) hback

end Text

open Text

/-- The languages of an inspection are on one line each, its evidence quotes some names, and its
diagnostics quote others. -/
abbrev Inspection.Worded (quoted noted : List String) (i : Inspection) : Prop :=
  i.Each SingleLine (Text.Worded quoted) (Text.Worded noted)

/-!
## Failures

The message of a failure is made of words and numbers, and of bytes that are quoted. Only the name
of a section or of a segment stands in it as it is.
-/

theorem Misread.singleLine_message (e : Misread) : SingleLine (ofString e.message) := by
  unfold message
  cases e <;> simp only [singleLine_ofString_append, singleLine_nat, singleLine_int, and_true] <;>
    and_intros <;> exact .literal rfl

namespace Pe

/-- What the failure to read a record says is on one line. -/
theorem RecordError.singleLine_message (e : RecordError) : SingleLine (ofString e.message) := by
  unfold message
  cases e with
  | tooShort kind size needed =>
    unfold RecordKind.label
    cases kind <;> simp only [singleLine_ofString_append, singleLine_int, if_true, if_false,
      Bool.false_eq_true, and_true] <;> decide
  | dosMagic found =>
    simp only [singleLine_ofString_append, singleLine_upperHex, and_true]
    and_intros <;> exact .literal rfl
  | optionalMagic found expected =>
    simp only [singleLine_ofString_append, singleLine_upperHex, and_true]
    and_intros <;> exact .literal rfl
  | outside e => exact e.singleLine_message

/-- The four bytes that are no signature are written as numbers where they would not show. -/
theorem ImageError.singleLine_message (e : ImageError) : SingleLine (ofString e.message) := by
  unfold message
  cases e with
  | record e => exact e.singleLine_message
  | optionalShort size kind =>
    have hkind : SingleLine (ofString kind.label) := by
      cases kind <;> exact .literal rfl
    simp only [singleLine_ofString_append, singleLine_nat, singleLine_int, hkind, and_true]
    and_intros <;> exact .literal rfl
  | _ =>
    simp only [singleLine_ofString_append, singleLine_nat, singleLine_int, singleLine_upperHex,
      singleLine_signedHex, singleLine_quoteBytes, and_true]
    and_intros <;> exact .literal rfl

/-- What the failure to read imports says is on one line. -/
theorem ImportError.singleLine_message (e : ImportError) : SingleLine (ofString e.message) := by
  unfold message
  cases e with
  | descriptor e => exact e.singleLine_message
  | _ =>
    simp only [singleLine_ofString_append, singleLine_hex, and_true]
    and_intros <;> exact .literal rfl

end Pe

namespace Elf

/-- What the failure to read a record says is on one line. -/
theorem RecordError.singleLine_message (e : RecordError) : SingleLine (ofString e.message) := by
  unfold message
  cases e with
  | tooShort kind => cases kind <;> decide
  | outside e => exact e.singleLine_message
  | _ =>
    simp only [singleLine_ofString_append, singleLine_nat, singleLine_int, and_true]
    and_intros <;> exact .literal rfl

/-- The section that a failure names, or the number of it. -/
def ImageError.section? : ImageError → Option String
  | contentCutOff label => some label
  | noStringTable name => some name
  | _ => none

/-- What a failure says names at most the section that it is about. -/
theorem ImageError.worded_message (e : ImageError) :
    Worded e.section?.toList (ofString e.message) := by
  unfold message
  cases e with
  | record e => exact .plain e.singleLine_message
  | contentCutOff label =>
    simp only [ofString_append]
    exact .quoting (List.mem_singleton_self label) (.literal rfl) (.literal rfl)
  | noStringTable name =>
    simp only [ofString_append]
    exact .quoting (List.mem_singleton_self name) (.literal rfl) (.literal rfl)
  | _ =>
    refine .plain ?_
    simp only [singleLine_ofString_append, singleLine_nat, singleLine_int, singleLine_signedHex,
      and_true]
    and_intros <;> exact .literal rfl

theorem ImageError.singleLine_message {e : ImageError} (h : e.section? = none) :
    SingleLine (ofString e.message) := by
  have hworded := e.worded_message
  rw [h] at hworded
  exact hworded.singleLine nofun

namespace Image

variable {data : Bytes}

theorem section?_of_readHeader {ident : Ident} {header : Header} {i : Nat} {e : ImageError}
    (h : readHeader data ident header i = .error e) : e.section? = none := by
  obtain ⟨e', -, rfl⟩ := mapError_eq_error_iff.mp h
  rfl

/-- No section is named when the section headers are refused, whichever of them it is. -/
theorem section?_of_readSections {ident : Ident} {header : Header} {e : ImageError}
    (h : readSections data ident header = .error e) : e.section? = none := by
  rw [readSections_eq] at h
  rcases ite_error_eq_error (ite_ok_eq_error h) with rfl | h
  · rfl
  -- one check after the other; none of the refusals speaks of a name
  rcases bind_eq_error_iff.mp h with hfirst | ⟨first, -, h⟩
  · exact section?_of_readHeader hfirst
  rcases ite_error_eq_error (ite_ok_eq_error h) with rfl | h
  · rfl
  rcases ite_error_eq_error h with rfl | h
  · rfl
  -- the first header that cannot be read is the one that is told
  rcases bind_eq_error_iff.mp h with hall | ⟨headers, -, h⟩
  · obtain ⟨i, -, hheader⟩ := exists_mem_of_mapM_eq_error hall
    exact section?_of_readHeader hheader
  rcases ite_error_eq_error h with rfl | h
  · rfl
  · cases h

/-- A file is refused before any section has a name. -/
theorem section?_of_ofBytes {e : ImageError} (h : Image.ofBytes data = .error e) :
    e.section? = none := by
  unfold Image.ofBytes at h
  rcases bind_eq_error_iff.mp h with hident | ⟨ident, -, h⟩
  · obtain ⟨e', -, rfl⟩ := mapError_eq_error_iff.mp hident
    rfl
  rcases bind_eq_error_iff.mp h with hheader | ⟨header, -, h⟩
  · obtain ⟨e', -, rfl⟩ := mapError_eq_error_iff.mp hheader
    rfl
  rcases bind_eq_error_iff.mp h with hsections | ⟨sections, -, h⟩
  · exact section?_of_readSections hsections
  · cases h

end Image

end Elf

namespace MachO

/-- What the failure to read a record says is on one line. -/
theorem RecordError.singleLine_message (e : RecordError) : SingleLine (ofString e.message) := by
  unfold message
  cases e with
  | badMagic found =>
    refine singleLine_ofString_append.mpr ⟨.literal rfl, singleLine_join ?_⟩
    exact List.forall_mem_map.mpr fun b _ => singleLine_hex 2 _
  | tooShort kind => cases kind <;> decide
  | outside e => exact e.singleLine_message
  | _ =>
    simp only [singleLine_ofString_append, singleLine_nat, singleLine_int, singleLine_signedHex,
      and_true]
    and_intros <;> exact .literal rfl

/-- The segment that a failure names. -/
def ImageError.segment? : ImageError → Option String
  | sectionsCutOff name _ _ => some name
  | _ => none

/-- The segment that the failure of a slice names. -/
def UniversalError.segment? : UniversalError → Option String
  | image error => error.segment?
  | _ => none

/-- What a failure says names at most the segment that it is about. -/
theorem ImageError.worded_message (e : ImageError) :
    Worded e.segment?.toList (ofString e.message) := by
  unfold message
  cases e with
  | record e => exact .plain e.singleLine_message
  | sectionsCutOff name count size =>
    -- the name stands between fixed words and two numbers
    have hback : SingleLine (ofString (": " ++ toString count
        ++ " sections do not fit in command of size " ++ toString size)) := by
      simp only [singleLine_ofString_append, singleLine_int, and_true]
      and_intros <;> exact .literal rfl
    have hquoting : Worded (sectionsCutOff name count size).segment?.toList
        (ofString "Segment " ++ ofString name ++ ofString (": " ++ toString count
          ++ " sections do not fit in command of size " ++ toString size)) :=
      .quoting (List.mem_singleton_self name) (.literal rfl) hback
    simpa only [ofString_append, List.append_assoc] using hquoting
  | _ =>
    refine .plain ?_
    simp only [singleLine_ofString_append, singleLine_nat, singleLine_int, singleLine_signedHex,
      and_true]
    and_intros <;> exact .literal rfl

/-- The name of an architecture is on one line, be it known or spelled by its number. -/
theorem singleLine_architecture (cpuType : Int) :
    SingleLine (ofString (architectureOfCpuType cpuType)) := by
  have htable : ∀ entry ∈ cpuTypeNames, SingleLine (ofString entry.2) := by
    decide
  rcases architectureOfCpuType_cases cpuType with hname | hspelled
  · have hentry := htable _ hname
    exact hentry
  · rw [hspelled]
    simp only [singleLine_ofString_append, singleLine_signedHex, and_true]
    and_intros <;> exact .literal rfl

/-- The refusal of a slice names at most a segment of its image. -/
theorem worded_message_of_ofArch {data : Bytes} {before : List Arch} {arch : Arch}
    {e : UniversalError} (h : Slice.ofArch data before arch = .error e) :
    Worded e.segment?.toList (ofString e.message) := by
  have harch : SingleLine (ofString arch.architecture) := singleLine_architecture _
  unfold Slice.ofArch at h
  -- the checks in their order; only the image of the slice brings in a name from the file
  rcases ite_error_eq_error h with rfl | h
  · refine .plain ?_
    show SingleLine (ofString ("Duplicate architecture " ++ arch.architecture ++ " (subtype "
      ++ signedHex arch.cpuSubtype ++ ")"))
    simp only [singleLine_ofString_append, harch, singleLine_signedHex, and_true]
    and_intros <;> exact .literal rfl
  rcases ite_error_eq_error h with rfl | h
  · refine .plain ?_
    show SingleLine (ofString ("Architecture " ++ arch.architecture
      ++ " extends past end of file (" ++ signedHex (arch.offset + arch.size) ++ " > "
      ++ signedHex data.size ++ ")"))
    simp only [singleLine_ofString_append, harch, singleLine_signedHex, and_true]
    and_intros <;> exact .literal rfl
  split at h
  next e' _ =>
    cases h
    exact e'.worded_message
  next image _ =>
    split at h
    next => cases h
    next =>
      cases h
      -- the other processor is told by its name and not by what the file calls it
      have hfound : SingleLine (ofString image.architecture) := singleLine_architecture _
      refine .plain ?_
      show SingleLine (ofString ("Architecture " ++ arch.architecture ++ " slice has CPU type "
        ++ image.architecture))
      simp only [singleLine_ofString_append, harch, hfound, and_true]
      and_intros <;> exact .literal rfl

/-- The refusal of the slices names at most a segment of one of them. -/
theorem worded_message_of_readSlices {data : Bytes} {count index : Nat} {before : List Slice}
    {e : UniversalError} (h : Universal.readSlices data count index before = .error e) :
    Worded e.segment?.toList (ofString e.message) := by
  -- the failure of one entry is that of the whole table
  induction count generalizing index before with
  | zero => cases h
  | succ count ih =>
    rw [Universal.readSlices] at h
    rcases bind_eq_error_iff.mp h with harch | ⟨arch, -, h⟩
    · obtain ⟨e', -, rfl⟩ := mapError_eq_error_iff.mp harch
      exact .plain e'.singleLine_message
    rcases bind_eq_error_iff.mp h with hslice | ⟨slice, -, h⟩
    · exact worded_message_of_ofArch hslice
    · exact ih h

/-- The refusal of a universal binary names at most a segment of one of its images. -/
theorem worded_message_of_universal {data : Bytes} {e : UniversalError}
    (h : Universal.ofBytes data = .error e) :
    Worded e.segment?.toList (ofString e.message) := by
  unfold Universal.ofBytes at h
  simp only at h
  -- the checks of the header, whose messages name nothing; then the run over the table
  rcases ite_error_eq_error h with rfl | h
  · refine .plain ?_
    show SingleLine (ofString ("Data too short for fat header: " ++ toString data.size ++ " < 8"))
    simp only [singleLine_ofString_append, singleLine_nat, and_true]
    and_intros <;> exact .literal rfl
  rcases ite_error_eq_error h with rfl | h
  · refine .plain ?_
    show SingleLine (ofString ("Invalid fat magic: " ++ signedHex (bigWord data 0)))
    exact singleLine_ofString_append.mpr ⟨.literal rfl, singleLine_signedHex _⟩
  rcases ite_error_eq_error h with rfl | h
  · refine .plain ?_
    show SingleLine (ofString ("Architecture count (" ++ toString (bigWord data 4)
      ++ ") exceeds maximum (" ++ toString maxArches ++ ")"))
    simp only [singleLine_ofString_append, singleLine_nat, and_true]
    and_intros <;> exact .literal rfl
  exact worded_message_of_readSlices (map_eq_error_iff.mp h)

end MachO

/-!
## Names out of a file

These are the names that evidence and diagnostics may show as they are.
-/

/-- The symbols that the evidence in a PE image can quote. -/
def Pe.quotedNames (file : Bytes) : List String :=
  (Image.ofBytes file).toOption.elim [] (·.knownImports)

namespace Elf

/-- The libraries that the evidence in an ELF file can quote. -/
def quotedNames (file : Bytes) : List String :=
  (Image.ofBytes file).toOption.elim [] (·.knownImports)

/-- The section that a search in a file fails at. -/
def failedSection {α : Type} : Except ImageError α → List String
  | .error e => e.section?.toList
  | .ok _ => []

/-- The sections that the diagnostics of an ELF file can name. -/
def diagnosedNames (file : Bytes) : List String :=
  (Image.ofBytes file).toOption.elim [] fun img =>
    failedSection img.symbolNames ++ failedSection img.importedLibraries

end Elf

/-- The libraries that the evidence in a Mach-O file can quote, or the segment that it is refused
for. -/
def MachO.quotedNames (host? : Option String) (file : Bytes) : List String :=
  if file.size < headerSize then []
  else if bigWord file 0 ∈ universalMagics then
    match Universal.ofBytes file with
    | .error e => e.segment?.toList
    | .ok u => (u.select? host?).elim [] (·.image.importedLibraries)
  else
    match Image.ofBytes file with
    | .error e => e.segment?.toList
    | .ok img => img.importedLibraries

/-- The names out of a file of some format that its evidence can quote. -/
def quotedNames (host? : Option String) (format : ContainerFormat) (file : Bytes) : List String :=
  match format with
  | .pe => Pe.quotedNames file
  | .elf => Elf.quotedNames file
  | .machO | .machOUniversal => MachO.quotedNames host? file
  | .javaClass | .unknown => []

/-- The names out of a file of some format that its diagnostics can quote, but not its evidence. -/
def diagnosedNames (format : ContainerFormat) (file : Bytes) : List String :=
  match format with
  | .elf => Elf.diagnosedNames file
  | _ => []

/-! ## Evidence and diagnostics -/

theorem Inspection.Worded.mono {quoted noted more : List String} {i : Inspection}
    (h : i.Worded quoted noted) (hmore : noted ⊆ more) : i.Worded quoted more :=
  ⟨h.languages, h.evidence, fun t ht => (h.log t ht).mono hmore⟩

/-- A file that is refused is so with a remark and the same words in the diagnostics. -/
theorem worded_refusal {remark line : String} (hremark : SingleLine (ofString remark))
    (hline : SingleLine (ofString line)) {names : List String} {message : String}
    (h : Text.Worded names (ofString message)) :
    Inspection.Worded names names ⟨.remark (ofString remark ++ ofString message),
      [ofString line ++ ofString message]⟩ :=
  Inspection.each_remark (h.behind hremark) (List.forall_mem_singleton.mpr (h.behind hline))

namespace Pe

/-- The rules for imports quote the import, and name languages on one line each. -/
theorem worded_classifyImport {names : List String} {name : String} (hname : name ∈ names)
    {languages : List Text} {evidence : Text}
    (h : classifyImport? name = some (languages, evidence)) :
    (∀ t ∈ languages, SingleLine t) ∧ Worded names evidence := by
  -- one case for each rule; all of them quote the import behind a label
  unfold classifyImport? at h
  split at h
  next =>
    cases h
    exact ⟨by decide, worded_labelled (.literal rfl) hname⟩
  next =>
    split at h
    next =>
      cases h
      exact ⟨by decide, worded_labelled (.literal rfl) hname⟩
    next =>
      split at h
      next =>
        cases h
        exact ⟨by decide, worded_labelled (.literal rfl) hname⟩
      next => cases h

/-- The inspection of a PE image quotes its imports, and notes nothing else. -/
theorem worded_inspect (file : Bytes) : (inspect file).Worded (quotedNames file) [] := by
  unfold inspect quotedNames
  cases Image.ofBytes file with
  | error e =>
    exact worded_refusal (.literal rfl) (.literal rfl) (.plain e.singleLine_message)
  | ok img =>
    have himports : img.inspectImports.Worded img.knownImports [] := by
      unfold Image.inspectImports Image.knownImports
      cases img.importedSymbols with
      | error e =>
        exact Inspection.each_noted (.behind (.literal rfl) (.plain e.singleLine_message))
      | ok symbols => exact Inspection.each_ofNames fun _ hname _ _ => worded_classifyImport hname
    -- three rules of its own, and then the imports
    exact (((Inspection.each_signalIf _ (by decide) (.plain (.literal rfl))).append
      (Inspection.each_signalIf _ (by decide) (.plain (.literal rfl)))).append
        (Inspection.each_signalIf _ (by decide) (.plain (.literal rfl)))).append himports

end Pe

/-- A library is quoted behind the label of its marker. -/
theorem worded_ofLibraries {markers : List LibraryMarker}
    (hmarkers : ∀ m ∈ markers, SingleLine (ofString m.language) ∧ SingleLine (ofString m.label))
    (libraries noted : List String) :
    (Inspection.ofLibraries markers libraries).Worded libraries noted := by
  refine Inspection.each_ofLibraries fun m hm library hlibrary => ?_
  obtain ⟨hlanguage, hlabel⟩ := hmarkers m hm
  exact ⟨hlanguage, worded_labelled (hlabel.append (.literal rfl)) hlibrary⟩

namespace Elf

variable (img : Image)

/-- The symbols of an ELF file are looked at without being quoted. -/
theorem worded_inspectSymbols (quoted : List String) :
    img.inspectSymbols.Worded quoted (failedSection img.symbolNames) := by
  unfold Image.inspectSymbols
  cases img.symbolNames with
  | error e => exact Inspection.each_noted (.behind (.literal rfl) e.worded_message)
  | ok names => exact Inspection.each_signalIf _ (by decide) (.plain (.literal rfl))

/-- The inspection of the imports quotes the libraries of an ELF file. -/
theorem worded_inspectImports :
    img.inspectImports.Worded img.knownImports (failedSection img.importedLibraries) := by
  unfold Image.inspectImports Image.knownImports
  cases img.importedLibraries with
  | error e => exact Inspection.each_noted (.behind (.literal rfl) e.worded_message)
  | ok libraries => exact worded_ofLibraries (by decide) libraries _

/-- The inspection of an ELF file quotes its libraries, and notes the sections it fails at. -/
theorem worded_inspect (file : Bytes) :
    (inspect file).Worded (quotedNames file) (diagnosedNames file) := by
  unfold inspect quotedNames diagnosedNames
  cases hread : Image.ofBytes file with
  | error e =>
    have hmessage := ImageError.singleLine_message (Image.section?_of_ofBytes hread)
    exact worded_refusal (.literal rfl) (.literal rfl) (.plain hmessage)
  | ok img =>
    -- each of the two searches may fail at a section of its own
    have hsymbols := (worded_inspectSymbols img img.knownImports).mono
      (List.subset_append_left _ (failedSection img.importedLibraries))
    have himports := (worded_inspectImports img).mono
      (List.subset_append_right (failedSection img.symbolNames) _)
    exact ((Inspection.each_signalIf _ (by decide) (.plain (.literal rfl))).append
      hsymbols).append himports

end Elf

namespace MachO

/-- The inspection of an image quotes its libraries. -/
theorem Image.worded_inspect (img : Image) (noted : List String) :
    img.inspect.Worded img.importedLibraries noted :=
  (((Inspection.each_signalIf _ (by decide) (.plain (.literal rfl))).append
    (Inspection.each_signalIf _ (by decide) (.plain (.literal rfl)))).append
      (Inspection.each_signalIf _ (by decide) (.plain (.literal rfl)))).append
        (worded_ofLibraries (by decide) _ _)

/-- The inspection of a Mach-O file quotes the libraries of the image that is looked at. -/
theorem worded_inspect (host? : Option String) (file : Bytes) :
    (inspect host? file).Worded (quotedNames host? file) (quotedNames host? file) := by
  unfold inspect quotedNames
  split
  · exact Inspection.each_nothing
  · split
    -- a refusal is noted, and what is found comes from the slice that is looked at
    · unfold inspectUniversal
      cases hread : Universal.ofBytes file with
      | error e =>
        exact worded_refusal (.literal rfl) (.literal rfl)
          (worded_message_of_universal hread)
      | ok u =>
        cases hselected : u.select? host? with
        | none =>
          simp only [hselected]
          exact Inspection.each_noted (.plain (.literal rfl))
        | some slice =>
          simp only [hselected]
          have harch : SingleLine (ofString slice.architecture) := singleLine_architecture _
          have hline : SingleLine (ofString "Analyzing " ++ ofString slice.architecture
              ++ ofString " slice of universal binary") :=
            (SingleLine.append (.literal rfl) harch).append (.literal rfl)
          exact (Inspection.each_noted (.plain hline)).append (slice.image.worded_inspect _)
    -- a thin file is inspected itself
    · unfold inspectThin
      cases Image.ofBytes file with
      | error e =>
        exact worded_refusal (.literal rfl) (.literal rfl) e.worded_message
      | ok img => exact img.worded_inspect _

end MachO

/-- Whatever the format, the names that an inspection quotes are those of the file. -/
theorem worded_inspectStructure (host? : Option String) (format : ContainerFormat)
    (file : Bytes) :
    (inspectStructure host? format file).Worded (quotedNames host? format file)
      (quotedNames host? format file ++ diagnosedNames format file) := by
  cases format with
  | pe => exact (Pe.worded_inspect file).mono (List.nil_subset _)
  | elf => exact (Elf.worded_inspect file).mono (List.subset_append_right _ _)
  | machO | machOUniversal =>
    exact (MachO.worded_inspect host? file).mono (List.subset_append_left _ _)
  | javaClass | unknown => exact Inspection.each_remark (.plain (.literal rfl)) nofun

/-- A signature is told by its language. -/
theorem worded_inspectSignatures (quoted noted : List String) (file : Bytes) :
    (inspectSignatures file).Worded quoted noted := by
  have hlanguages : ∀ entry ∈ signatures, SingleLine (ofString entry.1) := by
    decide
  apply Inspection.each_concat
  -- each language that is found has come from a rule
  intro p hp
  obtain ⟨language, hlanguage, rfl⟩ := List.mem_map.mp hp
  obtain ⟨entry, hentry, rfl⟩ := List.mem_map.mp hlanguage
  have hname := hlanguages entry (List.mem_of_mem_filter hentry)
  refine Inspection.each_signal (List.forall_mem_singleton.mpr hname)
    (.plain ((SingleLine.append (.literal rfl) hname).append (.literal rfl)))
    (List.forall_mem_singleton.mpr (.plain ?_))
  simp only [singleLine_append, hname, singleLine_nat, and_true]
  and_intros <;> exact .literal rfl

end Provenance
