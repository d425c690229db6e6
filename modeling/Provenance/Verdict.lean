import Provenance.Findings
import Provenance.Format
import Provenance.Number.Shortest

/-!
# Verdicts

What the evidence in a file comes to.

* `Verdict` — the most likely language, the share of the signals that speak for it, and everything
  that was found. The type of its texts is a parameter, as a verdict read from a report may hold
  other values there.
* `leader` — the language with the most signals; of several, the one discovered first.
* `Findings.verdict` — the verdict on findings.
* `Verdict.summary` — a verdict for a reader.
-/

namespace Provenance

/-- What the evidence in a file comes to. -/
structure Verdict (τ : Type) where
  /-- The most likely language. -/
  language : τ
  /-- The share of the signals that speak for it. -/
  confidence : Double
  /-- All candidate languages, with repeats, in the order of discovery. -/
  candidates : List τ
  /-- The evidence. -/
  evidence : List τ
  /-- The container format. -/
  format : ContainerFormat
  /-- The platform that runs the file. -/
  platform : τ
  deriving DecidableEq, Repr

namespace Verdict

/-- A verdict with its texts turned into something else. -/
def map {σ τ : Type} (f : σ → τ) (v : Verdict σ) : Verdict τ :=
  ⟨f v.language, v.confidence, v.candidates.map f, v.evidence.map f, v.format, f v.platform⟩

/-- The lines about the evidence, if there is any. -/
def evidenceLines {τ : Type} (render : τ → Text) (v : Verdict τ) : List Text :=
  if v.evidence.isEmpty then []
  else ("Evidence (" ++ toString v.evidence.length ++ "):")
    :: v.evidence.map fun e => "  - " ++ render e

/-- The lines of a summary: language, format, and the evidence. -/
def summaryLines {τ : Type} (render : τ → Text) (v : Verdict τ) : List Text :=
  ("Language: " ++ render v.language ++ " (confidence " ++ v.confidence.percent ++ ")")
    :: ("Format: " ++ v.format.name ++ " [" ++ render v.platform ++ "]")
    :: v.evidenceLines render

/-- A verdict for a reader. -/
def summary {τ : Type} (render : τ → Text) (v : Verdict τ) : Text :=
  Text.intercalate "\n" (v.summaryLines render)

end Verdict

/-- The language of a file without signals. -/
def unknownLanguage : String := "Unknown"

/-- The candidate with the most occurrences, and how many it has. Candidates are compared in the
order of their first occurrence, and only more occurrences replace the best so far. -/
def leader (candidates : List Text) : Text × Nat :=
  candidates.eraseDups.foldl
    (fun best c => if best.2 < candidates.count c then (c, candidates.count c) else best) ("", 0)

/-- The verdict on findings in a file of some format and platform. -/
def Findings.verdict (found : Findings) (format : ContainerFormat) (platform : Text) :
    Verdict Text :=
  let (language, confidence) :=
    if found.languages.isEmpty then ((unknownLanguage : Text), Double.zero false)
    else
      let (language, count) := leader found.languages
      (language, Double.ofRatio false count found.languages.length)
  ⟨language, confidence, found.languages, found.evidence, format, platform⟩

end Provenance
