import Provenance.MessagePack.Value
import Provenance.Number.Reading
import Provenance.Verdict

/-!
# Verdicts as records

A verdict is kept as a map with one entry for each of its parts.

* `Verdict.toValue` — the map of a verdict.
* `Verdict.ofValue` — the verdict of a map. The confidence may be anything that spells a number, and
  the two lists anything that is made of values; texts are taken as they are, whatever they hold.
* `VerdictError` — why a value is no verdict: of several faults the first in the order of the parts.
-/

namespace Provenance

open MessagePack

/-- Why a value is no verdict. -/
inductive VerdictError where
  /-- The value is not a map. -/
  | notAMap
  /-- A part is missing. -/
  | missingField (name : String)
  /-- The confidence is of a kind that spells no number. -/
  | notANumber (kind : String)
  /-- The confidence is a text that spells no number. -/
  | unreadableNumber (literal : String)
  /-- The confidence is past the greatest double. -/
  | numberTooLarge
  /-- A list is of a kind that is not made of values. -/
  | notASequence (kind : String)
  /-- The container format has no known name. -/
  | unknownFormat (literal : String)
  deriving DecidableEq, Repr

/-- The wording of a failure. -/
def VerdictError.message : VerdictError → String
  | notAMap => "Result is not a map"
  | missingField name => "Missing result field: " ++ Text.quote name
  | notANumber kind => "Confidence must be a text or a real number, not '" ++ kind ++ "'"
  | unreadableNumber literal => "could not convert string to float: " ++ literal
  | numberTooLarge => "Confidence is too large for a double"
  | notASequence kind => "'" ++ kind ++ "' value is not made of values"
  | unknownFormat literal => literal ++ " is not a valid ContainerFormat"

namespace Verdict

/-- The double that a value spells. -/
def confidenceOf : Value → Except VerdictError Double
  | .bool b => .ok (.ofRatio false b.toNat 1)
  | .int n => (Double.ofInt? n).elim (.error .numberTooLarge) .ok
  | .float d => .ok d
  | .str s => (s.toString?.bind Double.ofText?).elim (.error (.unreadableNumber (Text.quote s))) .ok
  | .bin bs => (Double.ofAscii? bs).elim (.error (.unreadableNumber (Text.quoteBytes bs))) .ok
  | v => .error (.notANumber v.kind)

/-- The values that a value is made of. -/
def elementsOf (v : Value) : Except VerdictError (List Value) :=
  v.elements?.elim (.error (.notASequence v.kind)) .ok

/-- The container format that a value names. -/
def formatOf (v : Value) : Except VerdictError ContainerFormat :=
  let named? := match v with
    | .str s => s.toString?.bind ContainerFormat.ofName?
    | _ => none
  named?.elim (.error (.unknownFormat v.literal)) .ok

/-- A part of a record. -/
def part (pairs : List (Value × Value)) (name : String) : Except VerdictError Value :=
  (Value.field? pairs name).elim (.error (.missingField name)) .ok

/-- The map of a verdict. -/
def toValue (v : Verdict Value) : Value :=
  .map [
    (.str "primary_language", v.language),
    (.str "confidence", .float v.confidence),
    (.str "candidate_languages", .array v.candidates),
    (.str "evidence", .array v.evidence),
    (.str "container_format", .str v.format.name),
    (.str "platform", v.platform)]

/-- The verdict of a map. -/
def ofValue : Value → Except VerdictError (Verdict Value)
  | .map pairs => do
    let language ← part pairs "primary_language"
    let confidence ← confidenceOf (← part pairs "confidence")
    let candidates ← elementsOf (← part pairs "candidate_languages")
    let evidence ← elementsOf (← part pairs "evidence")
    let format ← formatOf (← part pairs "container_format")
    let platform ← part pairs "platform"
    return ⟨language, confidence, candidates, evidence, format, platform⟩
  | _ => .error .notAMap

end Verdict

end Provenance
