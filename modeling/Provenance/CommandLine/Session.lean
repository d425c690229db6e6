import Provenance.Architecture
import Provenance.CommandLine.Options
import Provenance.Detection
import Provenance.FileTree
import Provenance.Report
import Provenance.Text.Lines

/-!
# Sessions

What one run of the command line does.

* `Visit` — what came of one file, and the lines it gives on the two outputs.
* `Options.targets` — the distinct files of a run, in the order in which they are first named.
* `Session.ofVisits` — the outputs of the visits and the entries for a report: one for each file
  that could be looked at.
* `Ending` — how a run ends: with an exit status, or before its end for a stated cause.
* `Transcript.ofArguments` — a whole run on the files of a system.
-/

namespace Provenance.CommandLine

/-! ## Messages about the arguments -/

/-- The name of the program. -/
def programName : String := "binlang-detect"

/-- How the program is used. -/
def usage : List Text := [
  "usage: " ++ programName ++ " [-h] [--verbose] [--report REPORT]",
  "                      binaries [binaries ...]"]

/-- What the arguments are for. -/
def argumentGuide : List Text := [
  "",
  "Guess the source language of compiled binaries",
  "",
  "positional arguments:",
  "  binaries         Paths to binaries to analyze",
  "",
  "options:",
  "  -h, --help       show this help message and exit",
  "  --verbose, -v    Show debug logging and candidate languages",
  "  --report REPORT  Write a MessagePack report of all results to this file"]

/-- The help text. -/
def helpText : List Text := usage ++ argumentGuide

/-- The wording of a refusal. -/
def UsageError.message : UsageError → Text
  | noFiles => "the following arguments are required: binaries"
  | argumentMissing switch => "argument " ++ switch.name ++ ": expected one argument"
  | argumentIgnored switch argument =>
    "argument " ++ switch.name ++ ": ignored explicit argument " ++ Text.quote argument
  | ambiguous argument meanings =>
    "ambiguous option: " ++ argument ++ " could match " ++ Text.intercalate ", " meanings
  | leftOver arguments => "unrecognized arguments: " ++ Text.intercalate " " arguments

/-- The lines that refuse some arguments. -/
def UsageError.lines (e : UsageError) : List Text :=
  usage ++ [programName ++ ": error: " ++ e.message]

/-! ## One file -/

/-- What came of one file. -/
structure Visit where
  /-- The file. -/
  path : FilePath
  /-- What was found, or why the file could not be looked at. -/
  outcome : Except String Detection

/-- The files of a run, each once. -/
def Options.targets (options : Options) : List FilePath := options.files.eraseDups

/-- A line of diagnostics. -/
def diagnostic (line : Text) : Text := "DEBUG: " ++ line

namespace Visit

/-- Looks at a file on a host, given its content. -/
def ofContent (host? : Option String) (path : FilePath) (content : Except FileError Bytes) :
    Visit :=
  match content with
  | .error e => ⟨path, .error (e.message path)⟩
  | .ok file => ⟨path, (detect host? file).mapError (·.message)⟩

/-- Whether the file could not be looked at. -/
def failed (v : Visit) : Bool := v.outcome.isOk == false

/-- The lines on the standard output: the path, and the summary of the verdict. -/
def output (verbose : Bool) (v : Visit) : List Text :=
  match v.outcome with
  | .error _ => []
  | .ok found =>
    let verdict := found.verdict
    (v.path.text ++ ":") :: (Text.lines (verdict.summary id)).map (("  " : Text) ++ ·)
      ++ if verbose && !verdict.candidates.isEmpty then
          ["  Candidates: " ++ Text.intercalate ", " verdict.candidates]
        else []

/-- The lines on the error output: why the file could not be looked at, or diagnostics. -/
def errors (verbose : Bool) (v : Visit) : List Text :=
  match v.outcome with
  | .error message => ["Error: " ++ v.path.text ++ ": " ++ message]
  | .ok found => if verbose then (found.log v.path.text).map diagnostic else []

/-- The entry in a report, if the file could be looked at. -/
def reported? (v : Visit) : Option (Report.Entry Text) :=
  match v.outcome with
  | .error _ => none
  | .ok found => some ⟨v.path.text, found.verdict⟩

end Visit

/-! ## All files -/

/-- What the visits of a run come to. -/
structure Session where
  /-- The lines on the standard output. -/
  output : List Text
  /-- The lines on the error output. -/
  errors : List Text
  /-- Whether some file could not be looked at. -/
  failed : Bool
  /-- The entries for a report. -/
  entries : List (Report.Entry Text)
  deriving DecidableEq, Repr

namespace Session

/-- The session of some visits. -/
def ofVisits (verbose : Bool) (visits : List Visit) : Session :=
  ⟨visits.flatMap (·.output verbose), visits.flatMap (·.errors verbose), visits.any (·.failed),
    visits.filterMap (·.reported?)⟩

/-- The exit status: whether some file could not be looked at. -/
def status (s : Session) : Nat := if s.failed then 1 else 0

/-- The document of the report. -/
def report (s : Session) : Except MessagePack.EncodeError (List UInt8) :=
  Report.write (s.entries.map (Report.Entry.map .str))

/-- The line of diagnostics after the report was written. -/
def reportNote (verbose : Bool) (s : Session) (path : FilePath) : List Text :=
  if verbose then
    [diagnostic ("Wrote " ++ toString s.entries.length ++ " report entries to " ++ path.text)]
  else []

end Session

/-! ## A whole run -/

/-- How a run ends. -/
inductive Ending where
  /-- With an exit status. -/
  | exit (status : Nat)
  /-- No file can have a path for a name. -/
  | unusableName (cause : NameFault)
  /-- The report has no name. -/
  | unnamedReport
  /-- The report cannot be put into its form. -/
  | unwritableReport (cause : MessagePack.EncodeError)
  /-- The file of the report cannot be opened. -/
  | refusedReport (path : FilePath) (cause : FileError)
  deriving DecidableEq, Repr

/-- What a run leaves behind. -/
structure Transcript (σ : Type) where
  /-- The lines on the standard output. -/
  output : List Text
  /-- The lines on the error output. -/
  errors : List Text
  /-- How the run ended. -/
  ending : Ending
  /-- The files after it. -/
  tree : σ
  deriving DecidableEq, Repr

/-- The text of an output: every line ends with a line feed. -/
def linesText (lines : List Text) : Text := lines.flatMap (· ++ "\n")

namespace Transcript

variable {σ : Type}

/-- A run that ends after its visits. -/
def ended (s : Session) (ending : Ending) (tree : σ) : Transcript σ :=
  ⟨s.output, s.errors, ending, tree⟩

variable [FileSystem σ]

/-- The end of a run: the report is written, if one is asked for. -/
def finish (options : Options) (s : Session) (tree : σ) : Transcript σ :=
  match options.report with
  | .nowhere => ended s (.exit s.status) tree
  | .unnamed => ended s .unnamedReport tree
  | .file path =>
    match s.report with
    | .error e => ended s (.unwritableReport e) tree
    | .ok document =>
      match path.fault?, FileSystem.write tree path document.toArray with
      | some fault, _ => ended s (.unusableName fault) tree
      | none, .error e => ended s (.refusedReport path e) tree
      | none, .ok after =>
        ⟨s.output, s.errors ++ s.reportNote options.verbose path, .exit s.status, after⟩

/-- A run with some options. It stops at the first path that no file can have for a name. -/
def ofOptions (host? : Option String) (tree : σ) (options : Options) : Transcript σ :=
  let (usable, rest) := options.targets.span fun path => path.fault?.isNone
  let visits := usable.map fun path => Visit.ofContent host? path (FileSystem.read tree path)
  let session := Session.ofVisits options.verbose visits
  match rest.head?.bind FilePath.fault? with
  | none => finish options session tree
  | some fault => ended session (.unusableName fault) tree

/-- A run with some arguments. -/
def ofArguments (host? : Option String) (tree : σ) (arguments : List Text) : Transcript σ :=
  match Request.ofArguments arguments with
  | .help => ⟨helpText, [], .exit 0, tree⟩
  | .refused e => ⟨[], e.lines, .exit 2, tree⟩
  | .run options => ofOptions host? tree options

end Transcript

end Provenance.CommandLine
