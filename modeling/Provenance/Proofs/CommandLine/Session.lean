import Mathlib.Data.List.TakeDrop
import Mathlib.Data.List.TakeWhile
import Provenance.CommandLine.Session
import Provenance.Proofs.CommandLine.Arguments
import Provenance.Proofs.Detection
import Provenance.Proofs.DetectionTexts
import Provenance.Proofs.FileTree
import Provenance.Proofs.Occurrences
import Provenance.Proofs.Report.RoundTrip

/-!
# What a run does with its files

A run that is given some files looks at each of them once, whatever the files are, in whichever
spellings they are named, and however many of them cannot be looked at.

* `visitTo` — the visit to one file. What comes of it is what detection makes of the content, or the
  failure to read or to detect (`looksAt_visitTo`). What it prints depends on nothing but the file,
  so that a run prints what its visits print, one after the other
  (`Transcript.ofOptions_of_usable`).
* `Report.read_of_session` — the report of a session is read as the entries of the session. All
  texts are strings; that they are short enough for the form of a report is asked for.
* `files_visited_once` — the run as a whole.
-/

namespace Provenance

/-! ## Reports -/

/-- A text is short enough for a report, if it is a string. -/
def Text.IsShort (text : Text) : Prop :=
  ∀ s : String, text = Text.ofString s → s.utf8ByteSize < 0x100000000

/-- The text of a string is short enough if its bytes are few enough. -/
theorem Text.isShort_ofString {s : String} (h : s.utf8ByteSize < 0x100000000) :
    (Text.ofString s).IsShort := by
  intro other heq
  rwa [← Text.ofString_injective heq]

/-- A string has bytes, and if these are few enough they have room in a report. -/
theorem Text.encodable_of_isWhole {text : Text} (hwhole : Text.isWhole text = true)
    (hshort : text.IsShort) : text.Encodable := by
  have hstring : Text.toString? text = some _ := if_pos hwhole
  have htext := Text.toString?_eq_some_iff.mp hstring
  exact ⟨_, htext, hshort _ htext⟩

namespace Report

/-- The texts and lists of an entry are short enough for a report. -/
structure Entry.IsShort (e : Entry Text) : Prop where
  path : e.path.IsShort
  language : e.verdict.language.IsShort
  candidateCount : e.verdict.candidates.length < 0x100000000
  candidates : ∀ c ∈ e.verdict.candidates, c.IsShort
  evidenceCount : e.verdict.evidence.length < 0x100000000
  evidence : ∀ line ∈ e.verdict.evidence, line.IsShort
  platform : e.verdict.platform.IsShort

/-- What is whole and short can be written. -/
theorem Entry.encodable_of_isWhole {e : Entry Text} (hpath : Text.isWhole e.path = true)
    (hverdict : e.verdict.IsWhole) (h : e.IsShort) : e.Encodable where
  path := Text.encodable_of_isWhole hpath h.path
  verdict := {
    language := Text.encodable_of_isWhole hverdict.language h.language
    candidateCount := h.candidateCount
    candidates := fun c hc =>
      Text.encodable_of_isWhole (hverdict.candidates c hc) (h.candidates c hc)
    evidenceCount := h.evidenceCount
    evidence := fun line hline =>
      Text.encodable_of_isWhole (hverdict.evidence line hline) (h.evidence line hline)
    platform := Text.encodable_of_isWhole hverdict.platform h.platform }

/-- The report of a session is written, and read as the entries of the session. -/
theorem read_of_session {s : CommandLine.Session} (hcount : s.entries.length < 0x100000000)
    (h : ∀ e ∈ s.entries, e.Encodable) :
    ∃ document, s.report = .ok document
      ∧ read document.toArray = .ok (s.entries.map (Entry.map .str)) := by
  -- a report has six levels of values, of those that may be written
  obtain ⟨document, hdocument, hdecode⟩ := MessagePack.decode_of_encode
    (fits_toValue hcount h (MessagePack.encodeLevels - 6))
  refine ⟨document, hdocument, ?_⟩
  rw [read, hdecode]
  exact ofValue_toValue _

end Report

namespace CommandLine

/-!
## One file

A visit to a file says what the file system and the detection say of it: the findings, or why there
are none.
-/

section Visits

variable {σ : Type} [FileSystem σ] (host? : Option String) (files : σ)

/-- The visit to the file at a path, whose content is read from the files. -/
def visitTo (path : FilePath) : Visit :=
  Visit.ofContent host? path (FileSystem.read files path)

/-- A visit has looked at the file at a path: something was found exactly if the file can be read
and detection finds it there, and a message was left exactly if one of the two fails with it. -/
structure Visit.LooksAt (v : Visit) (path : FilePath) : Prop where
  path_eq : v.path = path
  found_iff : ∀ found, v.outcome = .ok found ↔
    ∃ content, FileSystem.read files path = .ok content ∧ detect host? content = .ok found
  failed_iff : ∀ message, v.outcome = .error message ↔
    (∃ e, FileSystem.read files path = .error e ∧ message = e.message path)
      ∨ ∃ content e, FileSystem.read files path = .ok content
        ∧ detect host? content = .error e ∧ message = e.message

/-- The visit to a path looks at the file there, and at no other. -/
theorem looksAt_visitTo (path : FilePath) :
    (visitTo host? files path).LooksAt host? files path := by
  unfold visitTo
  cases hread : FileSystem.read files path with
  | error e =>
    -- the file cannot be opened, and nothing is detected
    refine ⟨rfl, fun found => ⟨nofun, ?_⟩, fun message => ⟨?_, ?_⟩⟩
    · rintro ⟨content, hcontent, -⟩
      rw [hread] at hcontent
      cases hcontent
    · intro h
      cases h
      exact .inl ⟨e, hread, rfl⟩
    · rintro (⟨e', he', rfl⟩ | ⟨content, -, hcontent, -⟩)
      · rw [hread] at he'
        cases he'
        rfl
      · rw [hread] at hcontent
        cases hcontent
  | ok content =>
    -- what detection says of the content is what comes of the visit, with its failure in words
    refine ⟨rfl, fun found => ?_, fun message => ?_⟩
    · refine mapError_eq_ok_iff.trans ⟨fun h => ⟨content, hread, h⟩, ?_⟩
      rintro ⟨content', hcontent, h⟩
      rw [hread] at hcontent
      cases hcontent
      exact h
    · refine mapError_eq_error_iff.trans ⟨?_, ?_⟩
      · rintro ⟨e, he, rfl⟩
        exact .inr ⟨content, e, hread, he, rfl⟩
      · rintro (⟨e, he, -⟩ | ⟨content', e, hcontent, he, rfl⟩)
        · rw [hread] at he
          cases he
        · rw [hread] at hcontent
          cases hcontent
          exact ⟨e, he, rfl⟩

/-- Without diagnostics a visit prints the summary of what was found, or one line that says why the
file could not be looked at. -/
def Visit.SaysItsOutcome (v : Visit) : Prop :=
  match v.outcome with
  | .ok found =>
    v.output false = (v.path.text ++ ":")
        :: (Text.lines (found.verdict.summary id)).map (("  " : Text) ++ ·)
      ∧ v.errors false = [] ∧ v.failed = false ∧ v.reported? = some ⟨v.path.text, found.verdict⟩
  | .error message =>
    v.output false = [] ∧ v.errors false = ["Error: " ++ v.path.text ++ ": " ++ message]
      ∧ v.failed = true ∧ v.reported? = none

/-- Every visit prints what came of it, and reports it if something was found. -/
theorem Visit.saysItsOutcome (v : Visit) : v.SaysItsOutcome := by
  obtain ⟨path, outcome⟩ := v
  cases outcome with
  | error message => exact ⟨rfl, rfl, rfl, rfl⟩
  | ok found => exact ⟨List.append_nil _, rfl, rfl, rfl⟩

/-!
## All files

The session for a list of paths is the visits to them, in order. What is printed, noted and reported
of each file comes from its own visit alone.
-/

/-- The session that visits the files at some paths, one after the other, without diagnostics. -/
def sessionOf (paths : List FilePath) : Session :=
  .ofVisits false (paths.map (visitTo host? files))

/-- What is reported on some files has room in a report. -/
structure FitsReport (paths : List FilePath) : Prop where
  count : (sessionOf host? files paths).entries.length < 0x100000000
  entries : ∀ e ∈ (sessionOf host? files paths).entries, e.IsShort

variable {host? files}

/-- A session prints what its visits print, one after the other. -/
theorem sessionOf_output (paths : List FilePath) :
    (sessionOf host? files paths).output
      = paths.flatMap fun p => (visitTo host? files p).output false :=
  List.flatMap_map ..

/-- A session leaves the messages of its visits, one after the other. -/
theorem sessionOf_errors (paths : List FilePath) :
    (sessionOf host? files paths).errors
      = paths.flatMap fun p => (visitTo host? files p).errors false :=
  List.flatMap_map ..

/-- A session fails if one of its visits does. -/
theorem sessionOf_status (paths : List FilePath) :
    (sessionOf host? files paths).status
      = if ∃ p ∈ paths, (visitTo host? files p).failed = true then 1 else 0 := by
  -- the run has failed when one of its visits has
  have hany : (sessionOf host? files paths).failed = true
      ↔ ∃ p ∈ paths, (visitTo host? files p).failed = true := by
    show (paths.map (visitTo host? files)).any Visit.failed = true ↔ _
    rw [List.any_map, List.any_eq_true]
    rfl
  rw [Session.status]
  split
  next h => rw [if_pos (hany.mp h)]
  next h => rw [if_neg fun hex => h (hany.mpr hex)]

/-- A session reports those visits that found something. -/
theorem sessionOf_entries (paths : List FilePath) :
    (sessionOf host? files paths).entries
      = paths.filterMap fun p => (visitTo host? files p).reported? :=
  List.filterMap_map

/-- What is reported on files with names that are strings can be written. -/
theorem encodable_of_fitsReport {paths : List FilePath}
    (hpaths : ∀ p ∈ paths, Text.isWhole p.text = true) (h : FitsReport host? files paths) :
    ∀ e ∈ (sessionOf host? files paths).entries, e.Encodable := by
  intro e he
  have hshort := h.entries e he
  rw [sessionOf_entries] at he
  obtain ⟨p, hp, hreported⟩ := List.mem_filterMap.mp he
  unfold Visit.reported? at hreported
  split at hreported
  next => cases hreported
  next found hfound =>
    cases hreported
    -- the texts of a verdict are strings by themselves, and the path is one of those that are
    have hlooks := looksAt_visitTo host? files p
    obtain ⟨content, -, hdetect⟩ := (hlooks.found_iff found).mp hfound
    refine Report.Entry.encodable_of_isWhole ?_ (isWhole_verdict_of_detect hdetect) hshort
    show Text.isWhole (visitTo host? files p).path.text = true
    rw [hlooks.path_eq]
    exact hpaths p hp

end Visits

/-!
## The run

The options lead to the list of paths, each of them once, and the session for this list is what the
run ends with.
-/

namespace Transcript

variable {σ : Type} [FileSystem σ] {host? : Option String} {files : σ}

/-- If files can have all the names, each of the distinct ones is visited. -/
theorem ofOptions_of_usable {options : Options}
    (h : ∀ p ∈ options.files, p.fault? = none) (hverbose : options.verbose = false) :
    ofOptions host? files options
      = finish options (sessionOf host? files options.targets) files := by
  -- the run stops at a path that no file can have, and here there is none
  have husable : ∀ p ∈ options.targets, (p.fault?.isNone) = true := by
    intro p hp
    rw [h p (List.mem_eraseDups.mp hp)]
    rfl
  have hspan : options.targets.span (fun path => path.fault?.isNone) = (options.targets, []) := by
    rw [List.span_eq_takeWhile_dropWhile, List.takeWhile_eq_self_iff.mpr husable,
      List.dropWhile_eq_nil_iff.mpr husable]
  rw [ofOptions, hspan, hverbose]
  rfl

/-- Arguments that name files, and maybe a report, lead to one visit for each distinct file. -/
theorem ofArguments_argumentsFor {arguments : List Text} (hne : arguments ≠ [])
    (hfiles : ∀ a ∈ arguments, IsFileArgument a) {report? : Option ReportArgument}
    (hreport : ∀ r ∈ report?, r.Proper) :
    ofArguments host? files (argumentsFor arguments report?)
      = finish ⟨arguments.map .ofText, false, targetFor report?⟩
          (sessionOf host? files (arguments.map .ofText).eraseDups) files := by
  rw [ofArguments,
    Request.ofArguments_argumentsFor hne (fun a ha => (hfiles a ha).dash) hreport]
  -- the options are found; what is left is that each path can be the name of a file
  refine ofOptions_of_usable ?_ rfl
  intro p hp
  obtain ⟨a, ha, rfl⟩ := List.mem_map.mp hp
  exact FilePath.fault?_ofText (hfiles a ha).whole (hfiles a ha).nul

/-- Without diagnostics the end of a run prints nothing of its own. -/
theorem finish_prints {options : Options} (hverbose : options.verbose = false) (s : Session)
    (files : σ) :
    (finish options s files).output = s.output ∧ (finish options s files).errors = s.errors := by
  -- five ways to end, of which only the last could print a line, and only with diagnostics
  unfold finish
  split
  · exact ⟨rfl, rfl⟩
  · exact ⟨rfl, rfl⟩
  · split
    · exact ⟨rfl, rfl⟩
    · split
      · exact ⟨rfl, rfl⟩
      · exact ⟨rfl, rfl⟩
      · refine ⟨rfl, ?_⟩
        rw [hverbose]
        exact List.append_nil s.errors

/-- A report that can be written is written. -/
theorem finish_of_writable (paths : List FilePath) {target : FilePath} {s : Session}
    {document : List UInt8} (hwritable : Writable files target)
    (hdocument : s.report = .ok document) :
    (finish ⟨paths, false, .file target⟩ s files).ending = .exit s.status
      ∧ FileSystem.read (finish ⟨paths, false, .file target⟩ s files).tree target
          = .ok document.toArray := by
  obtain ⟨hfault, hwrite⟩ := hwritable
  -- nothing is written behind the report, so that the file holds its bytes when the run ends
  obtain ⟨after, hafter, hread⟩ := hwrite document.toArray
  -- of the checks at the end of the run each is passed
  have hfinish : finish ⟨paths, false, .file target⟩ s files
      = ⟨s.output, s.errors ++ s.reportNote false target, .exit s.status, after⟩ := by
    simp only [finish, hdocument, hfault, hafter]
  rw [hfinish]
  exact ⟨rfl, hread⟩

/-- A file that is named alone gives what its visit prints. -/
theorem ofArguments_alone {a : Text} (h : IsFileArgument a) :
    let alone := ofArguments host? files [a]
    let visit := visitTo host? files (.ofText a)
    alone.output = visit.output false ∧ alone.errors = visit.errors false
      ∧ alone.ending = .exit (if visit.failed then 1 else 0) := by
  -- a single file is a list of files, each of which is named once
  have hrun : ofArguments host? files (argumentsFor [a] none) = _ :=
    ofArguments_argumentsFor (List.cons_ne_nil a []) (List.forall_mem_singleton.mpr h) nofun
  have hdistinct : ([a].map FilePath.ofText).eraseDups = [.ofText a] := rfl
  have hended : ofArguments host? files [a]
      = ended (sessionOf host? files [.ofText a])
          (.exit (sessionOf host? files [.ofText a]).status) files := by
    rw [hdistinct] at hrun
    exact hrun
  show (ofArguments host? files [a]).output = _ ∧ (ofArguments host? files [a]).errors = _
    ∧ (ofArguments host? files [a]).ending = _
  rw [hended]
  refine ⟨?_, ?_, ?_⟩
  · exact (sessionOf_output [.ofText a]).trans (List.flatMap_singleton _ _)
  · exact (sessionOf_errors [.ofText a]).trans (List.flatMap_singleton _ _)
  · show Ending.exit (sessionOf host? files [.ofText a]).status = _
    rw [sessionOf_status]
    simp only [List.mem_singleton, exists_eq_left]

end Transcript

/-- **Each file is visited once.** Whatever files there are, and whatever files are named, in
whichever spellings, a run looks at each distinct one once, in the order in which they are first
named. What comes of it is what detection makes of the content of that file, or the failure to read
it or to detect anything in it. The run prints what these visits print, which is what each file
gives when it is named alone: a summary if something was found, and one line about the failure if
not. It fails exactly if some file does, and a report holds what was found in the others, in order,
as long as the form of reports has room for it. -/
theorem files_visited_once {σ : Type} [FileSystem σ] (host? : Option String) (files : σ)
    {arguments : List Text} (hne : arguments ≠ []) (hfiles : ∀ a ∈ arguments, IsFileArgument a)
    {report? : Option ReportArgument}
    (hreport : ∀ r ∈ report?, r.Proper ∧ Writable files (.ofText r.name)) :
    ∃ distinct : List FilePath, FirstOccurrences (arguments.map .ofText) distinct ∧
      let run := Transcript.ofArguments host? files (argumentsFor arguments report?)
      run.output = distinct.flatMap (fun p => (visitTo host? files p).output false)
        ∧ run.errors = distinct.flatMap (fun p => (visitTo host? files p).errors false)
        ∧ (∀ p ∈ distinct, (visitTo host? files p).LooksAt host? files p
            ∧ (visitTo host? files p).SaysItsOutcome)
        ∧ (∀ a ∈ arguments,
            let alone := Transcript.ofArguments host? files [a]
            let visit := visitTo host? files (.ofText a)
            alone.output = visit.output false ∧ alone.errors = visit.errors false
              ∧ alone.ending = .exit (if visit.failed then 1 else 0))
        ∧ ((∀ r ∈ report?, FitsReport host? files distinct) →
            run.ending
                = .exit (if ∃ p ∈ distinct, (visitTo host? files p).failed = true then 1 else 0)
              ∧ ∀ r ∈ report?, ∃ document,
                FileSystem.read run.tree (.ofText r.name) = .ok document
                  ∧ Report.read document = .ok
                    ((distinct.filterMap fun p => (visitTo host? files p).reported?).map
                      (Report.Entry.map .str))) := by
  -- what is asked for, and whether it is without fault, is told from the arguments alone
  have hrun : Transcript.ofArguments host? files (argumentsFor arguments report?) = _ :=
    Transcript.ofArguments_argumentsFor hne hfiles fun r hr => (hreport r hr).1
  have hwhole : ∀ p ∈ (arguments.map FilePath.ofText).eraseDups, Text.isWhole p.text = true := by
    intro p hp
    obtain ⟨a, ha, rfl⟩ := List.mem_map.mp (List.mem_eraseDups.mp hp)
    exact FilePath.isWhole_text (hfiles a ha).whole
  refine ⟨(arguments.map .ofText).eraseDups, firstOccurrences_eraseDups _, ?_⟩
  rw [hrun]
  generalize (arguments.map FilePath.ofText).eraseDups = distinct at hwhole ⊢
  have hoptions : (⟨arguments.map .ofText, false, targetFor report?⟩ : Options).verbose = false :=
    rfl
  -- what is printed is known before the report is written
  obtain ⟨houtput, herrors⟩ :=
    Transcript.finish_prints hoptions (sessionOf host? files distinct) files
  refine ⟨houtput.trans (sessionOf_output distinct), herrors.trans (sessionOf_errors distinct),
    fun p _ => ⟨looksAt_visitTo host? files p, (visitTo host? files p).saysItsOutcome⟩,
    fun a ha => Transcript.ofArguments_alone (hfiles a ha), ?_⟩
  intro hfits
  cases report? with
  -- without a report the run ends with the status of its visits
  | none =>
    refine ⟨?_, nofun⟩
    rw [← sessionOf_status]
    rfl
  | some r =>
    -- everything that is reported has bytes, so that the report is put into its form and back
    have hroom := hfits r rfl
    obtain ⟨document, hdocument, hread⟩ :=
      Report.read_of_session hroom.count (encodable_of_fitsReport hwhole hroom)
    obtain ⟨hending, hfile⟩ :=
      Transcript.finish_of_writable (arguments.map .ofText) (hreport r rfl).2 hdocument
    rw [sessionOf_entries] at hread
    refine ⟨?_, ?_⟩
    · rw [← sessionOf_status]
      exact hending
    · intro r' hr'
      cases hr'
      exact ⟨document.toArray, hfile, hread⟩

/-- A program that Go's tools have built, and a file that ends within its first bytes. -/
def workbench : FileTree :=
  ⟨[(["prog"], .file goObject), (["stub"], .file #[0x7F, 0x45, 0x4C])]⟩

/-- Of the program, a file that is not there and the short file only the first is reported. -/
theorem workbench_entries :
    (sessionOf none workbench
        [⟨.here, ["prog"]⟩, ⟨.here, ["gone"]⟩, ⟨.here, ["stub"]⟩]).entries
      = [⟨"prog", "Go", ⟨0x3FF0000000000000⟩, ["Go", "Go"],
        ["Found Go build info", "Found Go patterns in binary"], .elf, "Unix/Linux"⟩] := by
  decide +kernel

/-- There is room in a report for the few texts of that entry. -/
theorem workbench_fitsReport :
    FitsReport none workbench [⟨.here, ["prog"]⟩, ⟨.here, ["gone"]⟩, ⟨.here, ["stub"]⟩] := by
  have hlines : ∀ {a b : String}, a.utf8ByteSize < 0x100000000 → b.utf8ByteSize < 0x100000000 →
      ∀ text ∈ [Text.ofString a, Text.ofString b], text.IsShort := by
    intro a b ha hb
    exact List.forall_mem_cons.mpr
      ⟨Text.isShort_ofString ha, List.forall_mem_singleton.mpr (Text.isShort_ofString hb)⟩
  constructor
  case count =>
    rw [workbench_entries]
    decide
  case entries =>
    rw [workbench_entries]
    refine List.forall_mem_singleton.mpr ?_
    constructor
    case path => exact Text.isShort_ofString (by decide)
    case language => exact Text.isShort_ofString (by decide)
    case candidateCount => decide
    case candidates => exact hlines (by decide) (by decide)
    case evidenceCount => decide
    case evidence => exact hlines (by decide) (by decide)
    case platform => exact Text.isShort_ofString (by decide)

/-- The program is named in two spellings, around a file that is not there. It is looked at once,
as detection looks at its content. The other two files get a line each, and the report names the
language. -/
theorem workbench_visited_once :
    let run := Transcript.ofArguments none workbench
      ["prog", "gone", "./prog", "stub", "--report=out"]
    run.output = ["prog:", "  Language: Go (confidence 100%)", "  Format: ELF [Unix/Linux]",
        "  Evidence (2):", "    - Found Go build info", "    - Found Go patterns in binary"]
      ∧ run.errors = ["Error: gone: [Errno 2] No such file or directory: 'gone'",
        "Error: stub: Could not read 8-byte header (got 3 bytes)"]
      ∧ run.ending = .exit 1
      ∧ (∃ d, (visitTo none workbench ⟨.here, ["prog"]⟩).outcome = .ok d
          ∧ detect none goObject = .ok d)
      ∧ ∃ document, FileSystem.read run.tree ⟨.here, ["out"]⟩ = .ok document
          ∧ Report.read document = .ok [⟨.str "prog", .str "Go", ⟨0x3FF0000000000000⟩,
              [.str "Go", .str "Go"],
              [.str "Found Go build info", .str "Found Go patterns in binary"], .elf,
              .str "Unix/Linux"⟩] := by
  have hwritable : Writable workbench ⟨.here, ["out"]⟩ := by
    have hway : [].foldlM workbench.follow (.below []) = Except.ok (Place.below []) := rfl
    exact FileTree.writable_of_foldlM rfl (by decide) (List.nil_append _).symm hway (by decide) rfl
      (by decide)
  have hfiles : ∀ a ∈ (["prog", "gone", "./prog", "stub"] : List Text), IsFileArgument a := by
    decide
  -- the report goes to a new file in the working directory
  have hreport : ∀ r ∈ some (⟨"out", true, false⟩ : ReportArgument),
      r.Proper ∧ Writable workbench (.ofText r.name) := by
    intro r hr
    cases hr
    exact ⟨by decide, hwritable⟩
  obtain ⟨distinct, hfirst, houtput, herrors, hvisits, -, hrest⟩ :=
    files_visited_once none workbench (List.cons_ne_nil _ _) hfiles hreport
  -- both spellings of the first name are one path
  obtain rfl : distinct = [⟨.here, ["prog"]⟩, ⟨.here, ["gone"]⟩, ⟨.here, ["stub"]⟩] :=
    hfirst.unique (firstOccurrences_eraseDups _)
  obtain ⟨hending, hread⟩ := hrest fun _ _ => workbench_fitsReport
  refine ⟨houtput.trans (by decide +kernel), herrors.trans (by decide +kernel), ?_, ?_, ?_⟩
  · rw [if_pos] at hending
    · exact hending
    · exact ⟨⟨.here, ["gone"]⟩, by decide, rfl⟩
  -- what came of the visit to the program is what detection makes of its content
  · have hfound := (hvisits ⟨.here, ["prog"]⟩ List.mem_cons_self).1.found_iff
    have hdetected : (detect none goObject).isOk = true := by decide +kernel
    cases hdetect : detect none goObject with
    | error e =>
      rw [hdetect] at hdetected
      cases hdetected
    | ok d => exact ⟨d, (hfound d).mpr ⟨goObject, rfl, hdetect⟩, rfl⟩
  · obtain ⟨document, hfile, hdocument⟩ := hread _ rfl
    rw [← sessionOf_entries, workbench_entries] at hdocument
    exact ⟨document, hfile, hdocument⟩

end CommandLine

end Provenance
