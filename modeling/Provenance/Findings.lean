import Provenance.Text.Factor

/-!
# Findings

What an inspection of a file brings to light.

* `Findings` — candidate languages and the evidence for them, both in the order of discovery and
  with repeats kept: repeated hits for one language are what gives it weight.
* `Inspection` — findings together with the diagnostics noted on the way.
* `LibraryMarker` — a rule that recognises the runtime library of a language by its name.

Both are appended part by part, so what a step contributes does not depend on what was found before.
-/

namespace Provenance

/-- Candidate languages and evidence. -/
structure Findings where
  /-- The languages that signals speak for. -/
  languages : List Text
  /-- One line for each signal or remark. -/
  evidence : List Text
  deriving DecidableEq, Repr

namespace Findings

/-- Nothing found. -/
def none : Findings := ⟨[], []⟩

/-- One signal that speaks for some languages. -/
def signal (languages : List Text) (evidence : Text) : Findings := ⟨languages, [evidence]⟩

/-- A remark that names no language. -/
def remark (message : Text) : Findings := ⟨[], [message]⟩

/-- What the first found, then what the second found. -/
def append (a b : Findings) : Findings :=
  ⟨a.languages ++ b.languages, a.evidence ++ b.evidence⟩

instance : Append Findings := ⟨append⟩

@[simp] theorem languages_append (a b : Findings) :
    (a ++ b).languages = a.languages ++ b.languages := rfl

@[simp] theorem evidence_append (a b : Findings) :
    (a ++ b).evidence = a.evidence ++ b.evidence := rfl

theorem none_append (a : Findings) : none ++ a = a := rfl

theorem append_none (a : Findings) : a ++ none = a := by
  show append a none = a
  simp [append, none]

theorem append_assoc (a b c : Findings) : a ++ b ++ c = a ++ (b ++ c) := by
  change append (append a b) c = append a (append b c)
  simp [append, List.append_assoc]

end Findings

/-- Findings and the diagnostics noted on the way. -/
structure Inspection where
  /-- What was found. -/
  findings : Findings
  /-- Diagnostics, in order. -/
  log : List Text
  deriving DecidableEq, Repr

namespace Inspection

/-- Nothing found and nothing noted. -/
def nothing : Inspection := ⟨.none, []⟩

/-- An inspection that only found something. -/
def found (findings : Findings) : Inspection := ⟨findings, []⟩

/-- An inspection that only noted a diagnostic. -/
def noted (line : Text) : Inspection := ⟨.none, [line]⟩

/-- One signal, if a test holds. -/
def signalIf (holds : Bool) (languages : List Text) (evidence : Text) : Inspection :=
  if holds then found (.signal languages evidence) else nothing

/-- The first inspection, then the second. -/
def append (a b : Inspection) : Inspection := ⟨a.findings ++ b.findings, a.log ++ b.log⟩

instance : Append Inspection := ⟨append⟩

@[simp] theorem findings_append (a b : Inspection) :
    (a ++ b).findings = a.findings ++ b.findings := rfl

/-- Several inspections, one after the other. -/
def concat (parts : List Inspection) : Inspection := parts.foldr (· ++ ·) nothing

/-- Signals, one after the other, make up a list of languages and a list of lines. -/
theorem findings_concat_signals {α : Type} (languages : α → List Text) (evidence : α → Text)
    (log : α → List Text) (xs : List α) :
    (concat (xs.map fun x => ⟨.signal (languages x) (evidence x), log x⟩)).findings
      = ⟨xs.flatMap languages, xs.map evidence⟩ := by
  induction xs with
  | nil => rfl
  | cons x rest ih =>
    show Findings.append _ (concat _).findings = _
    rw [ih]
    rfl

/-- One signal for each name that a rule recognises. -/
def ofNames (rule : Text → Option (List Text × Text)) (names : List String) : Inspection :=
  concat (names.filterMap (fun name : String => rule name) |>.map fun (languages, evidence) =>
    found (.signal languages evidence))

end Inspection

/-- A rule that recognises a library by a part of its name. -/
structure LibraryMarker where
  /-- The part of the name. -/
  part : String
  /-- The language that the library belongs to. -/
  language : String
  /-- What the evidence calls the library. -/
  label : String
  deriving DecidableEq, Repr

/-- The language of the first marker that occurs in a library's name; the evidence quotes the name
behind the marker's label. -/
def markedLanguage? (markers : List LibraryMarker) (library : Text) : Option (Text × Text) :=
  (markers.find? fun m => Text.contains library m.part).map fun m =>
    (m.language, m.label ++ ": " ++ library)

namespace Inspection

/-- One signal for each library that a marker recognises. -/
def ofLibraries (markers : List LibraryMarker) (libraries : List String) : Inspection :=
  .ofNames (fun l => (markedLanguage? markers l).map fun (language, line) => ([language], line))
    libraries

end Inspection

end Provenance
