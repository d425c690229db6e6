import Provenance.MessagePack.Codec
import Provenance.Verdict.Record

/-!
# Reports

A report holds paths with the verdicts on them, in order, as one MessagePack document: a map with a
version and a list of entries.

* `Report.write` — the document of a list of entries.
* `Report.read` — the entries of a document.
* `Report.ReadError` — why a document is no report: it is no MessagePack, no map, of another
  version, or one of its entries is unusable.
-/

namespace Provenance.Report

open MessagePack

/-- A path and the verdict on it. -/
structure Entry (τ : Type) where
  /-- The path. -/
  path : τ
  /-- The verdict. -/
  verdict : Verdict τ
  deriving DecidableEq, Repr

/-- An entry with its texts turned into something else. -/
def Entry.map {σ τ : Type} (f : σ → τ) (e : Entry σ) : Entry τ := ⟨f e.path, e.verdict.map f⟩

/-- The map of an entry. -/
def Entry.toValue (e : Entry Value) : Value :=
  .map [(.str "path", e.path), (.str "result", e.verdict.toValue)]

/-- The version of the documents that are written. -/
def version : Int := 1

/-- The map of a report. -/
def toValue (entries : List (Entry Value)) : Value :=
  .map [(.str "version", .int version), (.str "entries", .array (entries.map Entry.toValue))]

/-- The document of a report. -/
def write (entries : List (Entry Value)) : Except EncodeError (List UInt8) :=
  encode (toValue entries)

/-- Why entries cannot be taken from a report. -/
inductive EntryError where
  /-- A key is missing. -/
  | missingKey (key : String)
  /-- The list of entries, or an entry, is of another kind. -/
  | wrongKind (kind : String)
  /-- A value is no verdict. -/
  | verdict (cause : VerdictError)
  deriving DecidableEq, Repr

/-- Why a document is no report. -/
inductive ReadError where
  /-- It is no MessagePack document. -/
  | unparsable (cause : DecodeError)
  /-- It holds something else than a map. -/
  | notAMap (kind : String)
  /-- It is of another version. -/
  | unsupportedVersion (literal : String)
  /-- Its entries are unusable. -/
  | invalidEntry (cause : EntryError)
  deriving DecidableEq, Repr

/-- The wording of what is wrong with an entry. -/
def EntryError.message : EntryError → String
  | missingKey key => Text.quote key
  | wrongKind kind => "'" ++ kind ++ "' value where a map is needed"
  | verdict cause => cause.message

/-- The wording of a failure for a report at a path, up to the wording of its cause. -/
def ReadError.heading (path : Text) : ReadError → Text
  | unparsable _ => "Failed to parse report " ++ path ++ ": "
  | notAMap kind => "Invalid report format in " ++ path ++ ": expected dict, got " ++ kind
  | unsupportedVersion literal => "Unsupported report version in " ++ path ++ ": " ++ literal
  | invalidEntry _ => "Invalid report entry in " ++ path ++ ": "

/-- Whether a value stands for the version that is read: the number one in any form, or `true`. -/
def isVersion : Value → Bool
  | .int n => n == version
  | .float d => d.isOne
  | .bool b => b
  | _ => false

/-- What a value holds under a key. -/
def keyed (v : Value) (key : String) : Except EntryError Value :=
  match v with
  | .map pairs => (Value.field? pairs key).elim (.error (.missingKey key)) .ok
  | _ => .error (.wrongKind v.kind)

/-- The entry of a value. -/
def Entry.ofValue (v : Value) : Except EntryError (Entry Value) := do
  let path ← keyed v "path"
  let verdict ← (Verdict.ofValue (← keyed v "result")).mapError .verdict
  return ⟨path, verdict⟩

/-- The entries of a report's map. -/
def entriesOf (report : Value) : Except EntryError (List (Entry Value)) := do
  let listed ← keyed report "entries"
  let items ← listed.elements?.elim (.error (.wrongKind listed.kind)) .ok
  items.mapM Entry.ofValue

/-- The entries of a report. -/
def ofValue (v : Value) : Except ReadError (List (Entry Value)) :=
  match v with
  | .map pairs =>
    let stated := (Value.field? pairs "version").getD .nil
    if isVersion stated then (entriesOf v).mapError .invalidEntry
    else .error (.unsupportedVersion stated.literal)
  | _ => .error (.notAMap v.kind)

/-- The entries of a document. -/
def read (document : Bytes) : Except ReadError (List (Entry Value)) :=
  match decode document with
  | .ok v => ofValue v
  | .error e => .error (.unparsable e)

end Provenance.Report
