import Provenance.CommandLine.Session
import Provenance.Proofs.MachO.Locality
import Provenance.Proofs.Verdict
import Provenance.Proofs.Wording

/-!
# The lines of a summary

A summary is its lines joined by line feeds, and the command line splits it again before it indents
the lines. The lines that are split off are those that were joined as long as none of them holds a
line end. Those about the language and the format never do. Evidence quotes names out of the file as
they are, and such a name may hold one.

* `worded_of_detect` — what is found in a file is worded with the names out of it.
* `Verdict.headLines`, `Verdict.bullets` — the lines without names, and those with the evidence.
* `Verdict.lines_summary` — the lines of any summary whose language and platform are on one line.
* `CommandLine.Visit.output_eq`, `CommandLine.Visit.worded_of_mem_errors` — what is printed about a
  file.

Main results:

* `summary_lines_of_detect` — the lines of the summary of any file, and when they are those that
  were joined.
* `brokenName_adds_line` — a file with a library whose name holds a line feed.
-/

namespace Provenance

open Text

/-! ## Detection -/

/-- The platform of a container is on one line. -/
theorem Container.singleLine_platform (header : Bytes) :
    SingleLine (ofString (Container.ofHeader header).platform) := by
  unfold Container.ofHeader
  simp only
  split
  · simp only [singleLine_ofString_append, singleLine_nat, and_true]
    and_intros <;> exact .literal rfl
  · split_ifs <;> exact .literal rfl

variable {host? : Option String} {file : Bytes} {found : Detection}

/-- The names that are quoted are those of the format that is found. -/
theorem worded_of_detect (h : detect host? file = .ok found) :
    found.inspection.Worded (quotedNames host? found.container.format file)
      (quotedNames host? found.container.format file
        ++ diagnosedNames found.container.format file) := by
  obtain ⟨container, -, hfound⟩ := bind_eq_ok_iff.mp h
  cases hfound
  exact (worded_inspectStructure host? container.format file).append
    (worded_inspectSignatures _ _ file)

/-- The platform that is found is on one line. -/
theorem singleLine_platform_of_detect (h : detect host? file = .ok found) :
    SingleLine (ofString found.container.platform) := by
  obtain ⟨container, hsniff, hfound⟩ := bind_eq_ok_iff.mp h
  cases hfound
  unfold sniff at hsniff
  simp only at hsniff
  -- a file that is too short has no platform
  split at hsniff
  · cases hsniff
  · cases hsniff
    exact Container.singleLine_platform _

/-!
## Summaries

A summary has a line for the language, one for the format and one that introduces the evidence, and
behind them a bullet for each line of evidence.
-/

namespace Verdict

/-- The lines of a summary in front of the evidence. -/
def headLines (v : Verdict Text) : List Text :=
  ("Language: " ++ v.language ++ " (confidence " ++ v.confidence.percent ++ ")")
    :: ("Format: " ++ v.format.name ++ " [" ++ v.platform ++ "]")
    :: if v.evidence.isEmpty then [] else ["Evidence (" ++ toString v.evidence.length ++ "):"]

/-- The evidence, each piece behind its mark. -/
def bullets (v : Verdict Text) : List Text := v.evidence.map fun e => "  - " ++ e

theorem summaryLines_eq (v : Verdict Text) : v.summaryLines id = v.headLines ++ v.bullets := by
  unfold summaryLines evidenceLines headLines bullets
  cases v.evidence <;> rfl

variable {v : Verdict Text}

theorem singleLine_languageLine (h : SingleLine v.language) :
    SingleLine ("Language: " ++ v.language ++ " (confidence " ++ v.confidence.percent ++ ")") := by
  simp only [singleLine_append, singleLine_percent, h, and_true]
  and_intros <;> exact .literal rfl

theorem singleLine_formatLine (h : SingleLine v.platform) :
    SingleLine ("Format: " ++ v.format.name ++ " [" ++ v.platform ++ "]") := by
  have hname : SingleLine (ofString v.format.name) := by
    cases v.format <;> exact .literal rfl
  simp only [singleLine_append, hname, h, and_true]
  and_intros <;> exact .literal rfl

theorem singleLine_evidenceLine (count : Nat) :
    SingleLine ("Evidence (" ++ toString count ++ "):") := by
  simp only [singleLine_append, singleLine_nat, and_true]
  and_intros <;> exact .literal rfl

/-- The lines of the head are single lines, and none is empty. -/
theorem singleLine_of_mem_headLines (hlanguage : SingleLine v.language)
    (hplatform : SingleLine v.platform) : ∀ line ∈ v.headLines, SingleLine line ∧ line ≠ [] := by
  unfold headLines
  refine List.forall_mem_cons.mpr ⟨⟨singleLine_languageLine hlanguage, List.cons_ne_nil _ _⟩, ?_⟩
  refine List.forall_mem_cons.mpr ⟨⟨singleLine_formatLine hplatform, List.cons_ne_nil _ _⟩, ?_⟩
  split
  · nofun
  · exact List.forall_mem_singleton.mpr ⟨singleLine_evidenceLine _, List.cons_ne_nil _ _⟩

/-- Only the evidence can fall into other lines than those that were joined. -/
theorem lines_summary (hlanguage : SingleLine v.language) (hplatform : SingleLine v.platform) :
    lines (v.summary id) = v.headLines ++ joinedLines v.bullets := by
  have hhead := singleLine_of_mem_headLines hlanguage hplatform
  rw [summary, lines_intercalate, summaryLines_eq]
  -- without evidence nothing is joined to the head
  by_cases hnone : v.bullets = []
  · rw [hnone, List.append_nil, joinedLines_eq_self hhead, joinedLines, List.append_nil]
  · exact joinedLines_append (fun line hline => (hhead line hline).1) hnone

/-- The evidence stays in its own lines exactly if no piece of it holds a line end. -/
theorem joinedLines_bullets_iff :
    joinedLines v.bullets = v.bullets ↔ ∀ e ∈ v.evidence, SingleLine e := by
  constructor
  · intro hsame e he
    -- a line that was split off holds no line end
    have hbullet : "  - " ++ e ∈ joinedLines v.bullets := by
      rw [hsame]
      exact List.mem_map_of_mem he
    exact (singleLine_append.mp (singleLine_of_mem_joinedLines hbullet)).2
  · intro hplain
    refine joinedLines_eq_self (List.forall_mem_map.mpr fun e he => ?_)
    exact ⟨SingleLine.append (.literal rfl) (hplain e he), List.cons_ne_nil _ _⟩

end Verdict

/-!
## Printed lines

The command line prints the path of a file and the lines of its summary below it, and the candidates
only if it is asked to say more. Diagnostics are printed apart.
-/

namespace CommandLine.Visit

/-- The summary is printed below the path, and at most the candidates below the summary. -/
theorem output_eq (hlanguages : ∀ t ∈ found.inspection.findings.languages, SingleLine t)
    (path : FilePath) (verbose : Bool) :
    ∃ more, output verbose ⟨path, .ok found⟩
        = (path.text ++ ":") :: (lines (found.verdict.summary id)).map ("  " ++ ·) ++ more
      ∧ more.length ≤ 1 ∧ ∀ line ∈ more, SingleLine line := by
  refine ⟨_, rfl, ?_⟩
  split
  · refine ⟨Nat.le_refl 1, List.forall_mem_singleton.mpr ?_⟩
    exact SingleLine.append (.literal rfl)
      (SingleLine.intercalate (.literal rfl) hlanguages)
  · exact ⟨Nat.zero_le 1, nofun⟩

/-- A diagnostic is the headline of the file, or noted by the inspection. -/
theorem worded_of_mem_errors {names : List String}
    (hlog : ∀ line ∈ found.inspection.log, Text.Worded names line) {path : FilePath}
    {verbose : Bool} {line : Text} (hline : line ∈ errors verbose ⟨path, .ok found⟩) :
    line = diagnostic (path.text ++ ": " ++ found.container.format.name ++ " ("
        ++ found.container.platform ++ ")") ∨ Text.Worded names line := by
  unfold errors at hline
  cases verbose with
  | false => cases hline
  | true =>
    obtain ⟨entry, hentry, rfl⟩ := List.mem_map.mp hline
    rcases List.mem_cons.mp hentry with rfl | hentry
    · exact .inl rfl
    · exact .inr ((hlog entry hentry).behind (.literal rfl))

end CommandLine.Visit

/-! ## Files -/

/-- **The lines of the summary of a file.** They are those of its head, which are two, or three if
there is evidence, and those that the evidence falls into behind its marks. Each piece of evidence
is one line exactly when it holds no line end; and it holds none but those of one name out of the
file that it quotes as it is. The command line prints these lines below the path, and at most the
candidates below them. A diagnostic is the headline of the file, or it is worded like the evidence,
and then it may name a section of an ELF file, too. -/
theorem summary_lines_of_detect (h : detect host? file = .ok found) :
    (∀ e ∈ found.verdict.evidence, Text.Worded (quotedNames host? found.verdict.format file) e)
    ∧ found.verdict.summaryLines id = found.verdict.headLines ++ found.verdict.bullets
    ∧ found.verdict.headLines.length = (if found.verdict.evidence = [] then 2 else 3)
    ∧ lines (found.verdict.summary id)
        = found.verdict.headLines ++ joinedLines found.verdict.bullets
    ∧ (lines (found.verdict.summary id) = found.verdict.summaryLines id ↔
        ∀ e ∈ found.verdict.evidence, SingleLine e)
    ∧ ((∀ name ∈ quotedNames host? found.verdict.format file, SingleLine (ofString name)) →
        lines (found.verdict.summary id) = found.verdict.summaryLines id)
    ∧ ∀ (path : FilePath) (verbose : Bool),
        (∃ more, CommandLine.Visit.output verbose ⟨path, .ok found⟩
            = (path.text ++ ":") :: (lines (found.verdict.summary id)).map ("  " ++ ·) ++ more
          ∧ more.length ≤ 1 ∧ ∀ line ∈ more, SingleLine line)
        ∧ ∀ line ∈ CommandLine.Visit.errors verbose ⟨path, .ok found⟩,
            line = CommandLine.diagnostic (path.text ++ ": " ++ found.verdict.format.name ++ " ("
              ++ found.verdict.platform ++ ")")
            ∨ Text.Worded (quotedNames host? found.verdict.format file
                ++ diagnosedNames found.verdict.format file) line := by
  -- the language and the platform are on one line, so only the evidence is left
  have hworded := worded_of_detect h
  have hlines : lines (found.verdict.summary id)
      = found.verdict.headLines ++ joinedLines found.verdict.bullets :=
    Verdict.lines_summary (language_of_forall (.literal rfl) hworded.languages _ _)
      (singleLine_platform_of_detect h)
  have hplain : lines (found.verdict.summary id) = found.verdict.summaryLines id ↔
      ∀ e ∈ found.verdict.evidence, SingleLine e := by
    rw [hlines, Verdict.summaryLines_eq, List.append_right_inj]
    exact Verdict.joinedLines_bullets_iff
  have hhead : found.verdict.headLines.length
      = if found.verdict.evidence = [] then 2 else 3 := by
    unfold Verdict.headLines
    cases found.verdict.evidence <;> rfl
  have hnames : (∀ name ∈ quotedNames host? found.verdict.format file,
      SingleLine (ofString name)) → ∀ e ∈ found.verdict.evidence, SingleLine e :=
    fun hnames e he => (hworded.evidence e he).singleLine hnames
  exact ⟨hworded.evidence, Verdict.summaryLines_eq _, hhead, hlines, hplain,
    fun hquoted => hplain.mpr (hnames hquoted), fun path verbose =>
      ⟨CommandLine.Visit.output_eq hworded.languages path verbose,
        fun _ hline => CommandLine.Visit.worded_of_mem_errors hworded.log hline⟩⟩

/-- The library of the image is quoted in the only piece of evidence, on the fourth line. -/
theorem loneLibrary_summary_lines :
    ∃ found, detect none MachO.loneLibrary = .ok found
      ∧ found.verdict.evidence = [ofString "Swift library: libswift"]
      ∧ quotedNames none found.verdict.format MachO.loneLibrary = ["libswift"]
      ∧ lines (found.verdict.summary id) = found.verdict.headLines
          ++ [ofString "  - Swift library: libswift"]
      ∧ found.verdict.headLines.length = 3 := by
  have hrun : (detect none MachO.loneLibrary).toOption.map (fun found =>
      (found.verdict.evidence, quotedNames none found.verdict.format MachO.loneLibrary))
        = some ([ofString "Swift library: libswift"], ["libswift"]) := by
    decide +kernel
  obtain ⟨found, hfound, hparts⟩ := Option.map_eq_some_iff.mp hrun
  obtain ⟨hevidence, hquoted⟩ := Prod.mk.inj hparts
  have hdetect := eq_ok_of_toOption hfound
  obtain ⟨-, hsummary, hhead, -, -, hplain, -⟩ := summary_lines_of_detect hdetect
  have hsame := hplain (by rw [hquoted]; decide)
  rw [hevidence] at hhead
  refine ⟨found, hdetect, hevidence, hquoted, ?_, hhead⟩
  rw [hsame, hsummary, Verdict.bullets, hevidence]
  rfl

/-- An image with one library, of whose name the last letter stands behind a line feed. -/
def brokenName : Bytes :=
  let word := fun n : UInt8 => [n, 0, 0, 0]
  let header := [0xCE, 0xFA, 0xED, 0xFE] ++ word 7 ++ word 3 ++ word 2 ++ word 1 ++ word 36
    ++ word 0
  let library := word 0x0C ++ word 36 ++ word 24 ++ word 0 ++ word 0 ++ word 0
    ++ [0x6C, 0x69, 0x62, 0x6F, 0x62, 0x6A, 0x63, 0x0A, 0x78, 0, 0, 0]
  (header ++ library).toArray

/-- A name can add a line to the summary: there is one piece of evidence, and five lines. -/
theorem brokenName_adds_line :
    ∃ found, detect none brokenName = .ok found
      ∧ found.verdict.evidence = [ofString "Objective-C runtime: libobjc
x"]
      ∧ (lines (found.verdict.summary id)).length = 5
      ∧ (lines (found.verdict.summary id))[4]? = some (ofString "x") := by
  have hrun : (detect none brokenName).toOption.map (fun found =>
      (found.verdict.evidence, (lines (found.verdict.summary id)).length,
        (lines (found.verdict.summary id))[4]?))
        = some ([ofString "Objective-C runtime: libobjc
x"], 5, some (ofString "x")) := by
    decide +kernel
  obtain ⟨found, hfound, hparts⟩ := Option.map_eq_some_iff.mp hrun
  obtain ⟨hevidence, hlines⟩ := Prod.mk.inj hparts
  obtain ⟨hlength, hlast⟩ := Prod.mk.inj hlines
  exact ⟨found, eq_ok_of_toOption hfound, hevidence, hlength, hlast⟩

end Provenance
