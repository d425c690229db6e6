import Provenance.CommandLine.Session

/-!
# The program

The command line on the files of the system. Everything is decided by `CommandLine.Session`; here
the files are read and the outputs and the report are written.
-/

namespace Provenance.CommandLine

/-- The failure of a number; some systems report it negated. -/
def numberedError (number : UInt32) (reason : String) : FileError :=
  match (if number < 0x80000000 then number else 0 - number).toNat with
  | 2 => .missing
  | 13 => .other 13 "Permission denied"
  | 20 => .notADirectory
  | 21 => .isADirectory
  | 36 => .nameTooLong
  | n => .other n reason

/-- The failure that a system reports. -/
def systemError : IO.Error → FileError
  | .noFileOrDirectory .. => .missing
  | .inappropriateType _ number reason | .invalidArgument _ number reason
  | .noSuchThing _ number reason | .permissionDenied _ number reason
  | .resourceExhausted _ number reason => numberedError number reason
  | e => .other 5 (toString e)

/-- The content of a file of the system. -/
def readSystemFile (path : FilePath) : IO (Except FileError Bytes) := do
  try
    return .ok (← IO.FS.readBinFile path.text.shown).data
  catch e =>
    return .error (systemError e)

/-- The architecture of the machine, if the system tells it. -/
def systemHost? : IO (Option String) := do
  try
    return architectureOfMachine? (← IO.FS.readFile "/proc/sys/kernel/arch")
  catch _ =>
    return none

/-- Writes some lines to the two outputs. -/
def put (output errors : List Text) : IO Unit := do
  IO.print (linesText output).shown
  IO.eprint (linesText errors).shown

/-- Writes the report of a session; the answer is the exit status. -/
def finishSystem (options : Options) (session : Session) : IO UInt32 := do
  match options.report with
  | .nowhere => return UInt32.ofNat session.status
  | .unnamed => throw (IO.userError "the report has no name")
  | .file path =>
    match session.report with
    | .error _ => throw (IO.userError "the report cannot be written")
    | .ok document =>
      IO.FS.writeBinFile path.text.shown ⟨document.toArray⟩
      put [] (session.reportNote options.verbose path)
      return UInt32.ofNat session.status

/-- Looks at the files that the options name. -/
def runSystem (options : Options) : IO UInt32 := do
  let host? ← systemHost?
  let visits ← options.targets.mapM fun path => do
    if path.fault?.isSome then throw (IO.userError "no file can have such a name")
    let visit := Visit.ofContent host? path (← readSystemFile path)
    put (visit.output options.verbose) (visit.errors options.verbose)
    return visit
  finishSystem options (.ofVisits options.verbose visits)

end Provenance.CommandLine

open Provenance Provenance.CommandLine in
/-- Runs the command line. -/
def main (arguments : List String) : IO UInt32 := do
  match Request.ofArguments (arguments.map Text.ofString) with
  | .help =>
    put helpText []
    return 0
  | .refused e =>
    put [] e.lines
    return 2
  | .run options => runSystem options
