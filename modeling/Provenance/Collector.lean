import Provenance.Findings

/-!
# Collecting findings

A detector holds one collector while it works, and each step writes to it whatever the step finds,
in many branches and with several early ends.

* `Collector` — an action on what has been collected; `Collector.after` is what it leaves.
* `Collector.addLanguages`, `Collector.note` — the two ways of writing to the collector.
* `Collector.addIf`, `Collector.addNames`, `Collector.addLibraries` — writing under a condition.
-/

namespace Provenance

/-- An action on the collected findings. -/
abbrev Collector := StateM Findings Unit

namespace Collector

/-- What has been collected after an action. -/
def after (act : Collector) (before : Findings) : Findings := (act.run before).2

/-- Record one signal that speaks for some languages. -/
def addLanguages (languages : List Text) (evidence : Text) : Collector :=
  modify fun c => ⟨c.languages ++ languages, c.evidence ++ [evidence]⟩

/-- Record one signal that speaks for one language. -/
def addLanguage (language evidence : Text) : Collector := addLanguages [language] evidence

/-- Record a remark that names no language. -/
def note (message : Text) : Collector :=
  modify fun c => { c with evidence := c.evidence ++ [message] }

/-- Record one signal if a test holds. -/
def addIf (holds : Bool) (languages : List Text) (evidence : Text) : Collector :=
  if holds then addLanguages languages evidence else pure ()

/-- Record one signal if a rule recognises a name. -/
def addName (rule : Text → Option (List Text × Text)) (name : String) : Collector :=
  match rule name with
  | none => pure ()
  | some (languages, evidence) => addLanguages languages evidence

/-- Record one signal for each name that a rule recognises, name by name. -/
def addNames (rule : Text → Option (List Text × Text)) (names : List String) : Collector :=
  names.forM (addName rule)

/-- Record one signal for each library that a rule recognises. -/
def addLibraries (rule : Text → Option (Text × Text)) (libraries : List String) : Collector :=
  addNames (fun l => (rule l).map fun (language, evidence) => ([language], evidence)) libraries

end Collector

end Provenance
