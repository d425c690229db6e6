import Provenance.FilePath
import Provenance.Text.Digit

/-!
# Options

What the arguments of the command line ask for.

* `Options` — the files to look at, whether to say more, and where to write a report.
* `Request` — what the arguments come to: a run, the help text, or a refusal.
* `Token.ofArguments` — each argument on its own: a word, an option, the separator `--`, or an
  option that is not known. Long options may be cut short as long as one option remains that they
  can mean.
* `Request.ofArguments` — the request of some arguments. The first group of words that holds one
  names the files; words in later groups and unknown options are left over.
-/

namespace Provenance.CommandLine

/-- Where a report goes. -/
inductive ReportTarget where
  /-- There is no report. -/
  | nowhere
  /-- Into a file. -/
  | file (path : FilePath)
  /-- A report is asked for, but its name is the separator, which counts as none. -/
  | unnamed
  deriving DecidableEq, Repr

/-- What to do. -/
structure Options where
  /-- The files to look at, in order and with repeats. -/
  files : List FilePath
  /-- Whether diagnostics and candidate languages are shown. -/
  verbose : Bool
  /-- Where to write a report. -/
  report : ReportTarget
  deriving DecidableEq, Repr

/-- The options that are known. -/
inductive Switch where
  /-- Show the help text. -/
  | help
  /-- Show diagnostics and candidate languages. -/
  | verbose
  /-- Write a report to a file. -/
  | report
  deriving DecidableEq, Repr

namespace Switch

/-- The spellings of the options, in the order in which they are compared. -/
def spellings : List (Text × Switch) :=
  [("-h", help), ("--help", help), ("--verbose", verbose), ("-v", verbose), ("--report", report)]

/-- The option of a spelling. -/
def ofSpelling? (spelling : Text) : Option Switch :=
  (spellings.find? (·.1 = spelling)).map (·.2)

/-- The option of a letter after a single dash. -/
def ofLetter? (letter : CodePoint) : Option Switch := ofSpelling? [.char '-', letter]

/-- What messages call an option. -/
def name : Switch → String
  | help => "-h/--help"
  | verbose => "--verbose/-v"
  | report => "--report"

end Switch

/-- Why arguments are refused. -/
inductive UsageError where
  /-- No file is named. -/
  | noFiles
  /-- An option stands without the argument that it needs. -/
  | argumentMissing (switch : Switch)
  /-- An option has an argument that it does not take. -/
  | argumentIgnored (switch : Switch) (argument : Text)
  /-- A shortened option can mean several. -/
  | ambiguous (argument : Text) (meanings : List Text)
  /-- Some arguments are left over. -/
  | leftOver (arguments : List Text)
  deriving DecidableEq, Repr

/-! ## Arguments on their own -/

/-- An argument on its own. -/
inductive Token where
  /-- A word. -/
  | word (text : Text)
  /-- The first `--`; only words follow it. -/
  | separator
  /-- An option, with one dash or two, and the argument in the same word. -/
  | switch (switch : Switch) (short : Bool) (argument? : Option Text)
  /-- An option that is not known. -/
  | unknown (text : Text)
  deriving DecidableEq, Repr

/-- The text of a token that is no option. -/
def Token.wordText? : Token → Option Text
  | word text => some text
  | separator => some "--"
  | switch .. | unknown _ => none

/-- Whether a text begins with another. -/
def startsWith (text start : Text) : Bool := start.isPrefixOf text

/-- Splits a text at its first equals sign. -/
def splitArgument (text : Text) : Text × Option Text :=
  match text.dropWhile (· ≠ .char '=') with
  | [] => (text, none)
  | _ :: argument => (text.takeWhile (· ≠ .char '='), some argument)

/-- Whether a text is digits, or digits with one point among them that digits follow. -/
def isPlainNumber (cs : Text) : Bool :=
  let digit (c : CodePoint) : Bool := c.holds fun c => (Text.decimalValue? c).isSome
  match cs.dropWhile digit with
  | [] => !cs.isEmpty
  | .char '.' :: fraction => !fraction.isEmpty && fraction.all digit
  | _ => false

/-- Whether a text is a dash and a number; a line feed may follow. -/
def isNegativeNumber (text : Text) : Bool :=
  match text with
  | .char '-' :: cs =>
    isPlainNumber cs || (cs.getLast? == some (.char '\n') && isPlainNumber cs.dropLast)
  | _ => false

/-- The token of an option that no spelling matches as it stands. -/
def shortened (text : Text) : Except UsageError Token :=
  match text with
  | .char '-' :: .char '-' :: _ =>
    let (start, argument?) := splitArgument text
    match Switch.spellings.filter fun s => startsWith s.1 start with
    | [] => .ok (.unknown text)
    | [s] => .ok (.switch s.2 false argument?)
    | several => .error (.ambiguous text (several.map (·.1)))
  | .char '-' :: letter :: rest =>
    match Switch.ofLetter? letter with
    | some s => .ok (.switch s true (some rest))
    | none => .ok (.unknown text)
  | _ => .ok (.word text)

/-- The token of an argument before the separator. -/
def Token.ofArgument (argument : Text) : Except UsageError Token :=
  let isShort (spelling : Text) : Bool := !startsWith spelling "--"
  if !startsWith argument "-" || argument.length = 1 then .ok (.word argument)
  else
    match Switch.ofSpelling? argument with
    | some s => .ok (.switch s (isShort argument) none)
    | none =>
      let (start, value?) := splitArgument argument
      match value?, Switch.ofSpelling? start with
      | some value, some s => .ok (.switch s (isShort start) (some value))
      | _, _ => do
        match ← shortened argument with
        | .unknown _ =>
          if isNegativeNumber argument ∨ .char ' ' ∈ argument then return .word argument
          else return .unknown argument
        | token => return token

/-- The tokens of some arguments. -/
def Token.ofArguments : List Text → Except UsageError (List Token)
  | [] => .ok []
  | argument :: rest =>
    if argument = "--" then .ok (.separator :: rest.map .word)
    else do
      let token ← Token.ofArgument argument
      return token :: (← Token.ofArguments rest)

/-! ## The request -/

/-- What arguments come to. -/
inductive Request where
  /-- Look at some files. -/
  | run (options : Options)
  /-- Show the help text. -/
  | help
  /-- The arguments are refused. -/
  | refused (cause : UsageError)
  deriving DecidableEq, Repr

/-- What the tokens so far come to. -/
structure Draft where
  /-- The texts of the files, once they are known. -/
  files? : Option (List Text)
  /-- Whether diagnostics are shown. -/
  verbose : Bool
  /-- Where to write a report. -/
  report : ReportTarget
  /-- What is left over. -/
  extras : List Text
  deriving DecidableEq, Repr

namespace Draft

/-- Nothing is known yet. -/
def blank : Draft := ⟨none, false, .nowhere, []⟩

/-- Whether a token is a word. -/
def isWord : Token → Bool
  | .word _ => true
  | _ => false

/-- A draft with a group of words and separators: the files, if they are not known yet and the group
holds a word; the separator is not one of them. -/
def takeGroup (draft : Draft) (group : List Token) : Draft :=
  let texts := group.filterMap Token.wordText?
  if draft.files?.isNone && group.any isWord then { draft with files? := some (texts.erase "--") }
  else { draft with extras := draft.extras ++ texts }

/-- The options of a cluster of letters, from the letter that stands for `switch` on. -/
def cluster (switch : Switch) : Text → Except UsageError (List Switch)
  | [] => .ok [switch]
  | letter :: rest =>
    match Switch.ofLetter? letter with
    | some next => do return switch :: (← cluster next rest)
    | none => .error (.argumentIgnored switch (letter :: rest))

/-- The target of a report with a given name in the same word. -/
def targetOf (name : Text) : ReportTarget :=
  if name = "--" then .unnamed else .file (.ofText name)

/-- The request of a draft, when all tokens are used. -/
def finish (draft : Draft) : Request :=
  match draft.files?, draft.extras with
  | none, _ => .refused .noFiles
  | some files, [] => .run ⟨files.map .ofText, draft.verbose, draft.report⟩
  | some _, extras => .refused (.leftOver extras)

/-- The options that one token without an argument of its own stands for. -/
def flags (switch : Switch) (short : Bool) : Option Text → Except UsageError (List Switch)
  | none => .ok [switch]
  | some argument =>
    if short && !argument.isEmpty then cluster switch argument
    else .error (.argumentIgnored switch argument)

/-- The request of a draft and the tokens after it; `group` holds the words just before them, in
reverse. -/
def complete (draft : Draft) (group : List Token) : List Token → Request
  | [] => (draft.takeGroup group.reverse).finish
  | .word text :: rest => complete draft (.word text :: group) rest
  | .separator :: rest => complete draft (.separator :: group) rest
  | .unknown text :: rest =>
    let draft := draft.takeGroup group.reverse
    complete { draft with extras := draft.extras ++ [text] } [] rest
  | .switch .report _ (some name) :: rest =>
    complete { draft.takeGroup group.reverse with report := targetOf name } [] rest
  | .switch .report _ none :: .word name :: rest =>
    complete { draft.takeGroup group.reverse with report := .file (.ofText name) } [] rest
  | .switch .report _ none :: _ => .refused (.argumentMissing .report)
  | .switch switch short argument? :: rest =>
    match flags switch short argument? with
    | .error e => .refused e
    | .ok named =>
      if named.contains .help then .help
      else complete { draft.takeGroup group.reverse with verbose := true } [] rest

end Draft

/-- The request of some arguments. -/
def Request.ofArguments (arguments : List Text) : Request :=
  match Token.ofArguments arguments with
  | .error e => .refused e
  | .ok tokens => Draft.blank.complete [] tokens

end Provenance.CommandLine
