import Provenance.Detection

/-!
# Collecting evidence step by step

An inspection says what a file contributes. A detector holds one collector while it works, and each
step writes to it whatever the step finds, in many branches and with several early ends. All that
ever happens to the collector is that findings are appended, and those of a step are just what the
inspection of its own input says.

* `Collector.Appends` — an action appends fixed findings, whatever has been collected.
* `Pe.collect_appends`, `Elf.collect_appends`, `MachO.collect_appends`, `collectSignatures_appends`
  — what looking at a file appends.
* `Step.collect_appends` — a step appends what its input shows.

Main result:

* `run_appends_contributions` — a run of any length appends the contributions of its steps, in step
  order and with repeats.
-/

namespace Provenance

open Collector

/-!
## Actions that append

An action appends the same languages and lines to whatever has been collected. Doing nothing does,
adding does, and so does one such action after another; all that is collected is built from these.
-/

namespace Collector

/-- An action appends fixed findings to whatever has been collected. -/
def Appends (act : Collector) (found : Findings) : Prop :=
  ∀ before, act.run before = ((), before ++ found)

/-- After an action that appends, what was there stands in front. -/
theorem Appends.after_eq {act : Collector} {found : Findings} (h : Appends act found)
    (before : Findings) : act.after before = before ++ found := by
  rw [after, h before]

theorem appends_pure : Appends (pure ()) .none := by
  intro before
  rw [Findings.append_none]
  rfl

theorem appends_addLanguages (languages : List Text) (evidence : Text) :
    Appends (addLanguages languages evidence) (.signal languages evidence) :=
  fun _ => rfl

theorem appends_note (message : Text) : Appends (note message) (.remark message) := by
  intro before
  show ((), (⟨before.languages, before.evidence ++ [message]⟩ : Findings))
    = ((), ⟨before.languages ++ [], before.evidence ++ [message]⟩)
  rw [List.append_nil]

/-- Of two actions the first appends first. -/
theorem Appends.bind {first second : Collector} {a b : Findings} (ha : Appends first a)
    (hb : Appends second b) : Appends (first >>= fun _ => second) (a ++ b) := by
  intro before
  rw [StateT.run_bind, ha before, ← Findings.append_assoc]
  exact hb (before ++ a)

/-- A rule that does not hold appends nothing. -/
theorem appends_addIf (holds : Bool) (languages : List Text) (evidence : Text) :
    Appends (addIf holds languages evidence)
      (Inspection.signalIf holds languages evidence).findings := by
  cases holds with
  | false => exact appends_pure
  | true => exact appends_addLanguages languages evidence

/-- An action for each element of a list appends what the elements contribute, in list order. -/
theorem appends_forM {α : Type} {act : α → Collector} {part : α → Inspection}
    (h : ∀ x, Appends (act x) (part x).findings) (xs : List α) :
    Appends (xs.forM act) (Inspection.concat (xs.map part)).findings := by
  induction xs with
  | nil => exact appends_pure
  | cons x rest ih => exact (h x).bind ih

theorem ofNames_cons_none {rule : Text → Option (List Text × Text)} {name : String}
    (h : rule name = none) (rest : List String) :
    Inspection.ofNames rule (name :: rest) = Inspection.ofNames rule rest := by
  unfold Inspection.ofNames
  simp only [List.filterMap_cons, h]

/-- A name that the rule recognises shows a signal in front of the others. -/
theorem ofNames_cons_some {rule : Text → Option (List Text × Text)} {name : String}
    {languages : List Text} {evidence : Text} (h : rule name = some (languages, evidence))
    (rest : List String) :
    Inspection.ofNames rule (name :: rest)
      = .found (.signal languages evidence) ++ Inspection.ofNames rule rest := by
  unfold Inspection.ofNames
  simp only [List.filterMap_cons, h]
  rfl

/-- An action for each name that the rule recognises appends what the inspection of the names shows.
-/
theorem appends_addNames (rule : Text → Option (List Text × Text)) (names : List String) :
    -- on the names: the first one appends its own signal, or nothing, and the rest follows
    Appends (addNames rule names) (Inspection.ofNames rule names).findings := by
  induction names with
  | nil => exact appends_pure
  | cons name rest ih =>
    -- a name that the rule does not recognise leaves no trace in either form
    show Appends (addName rule name >>= fun _ => addNames rule rest) _
    cases hrule : rule name with
    | none =>
      have hskip : addName rule name = pure () := by rw [addName, hrule]
      rw [ofNames_cons_none hrule, hskip, pure_bind]
      exact ih
    | some hit =>
      obtain ⟨languages, evidence⟩ := hit
      have hadd : addName rule name = addLanguages languages evidence := by rw [addName, hrule]
      rw [ofNames_cons_some hrule, hadd]
      exact (appends_addLanguages languages evidence).bind ih

end Collector

/-! ## Each step appends what its input shows -/

/-- The four rules on a PE image append what they show, in the order of the inspection. -/
theorem Pe.Image.collect_appends (img : Pe.Image) :
    Appends img.collect img.inspect.findings := by
  -- a table that cannot be read counts as empty, and leaves only a diagnostic
  have himports : Appends (addNames Pe.classifyImport? img.knownImports)
      img.inspectImports.findings := by
    unfold Pe.Image.inspectImports Pe.Image.knownImports
    cases img.importedSymbols with
    | error e => exact appends_pure
    | ok symbols => exact appends_addNames _ symbols
  unfold Pe.Image.inspect
  -- an inspection groups its parts from the left, a sequence of actions from the right
  simp only [Inspection.findings_append, Findings.append_assoc]
  exact (appends_addIf _ _ _).bind
    ((appends_addIf _ _ _).bind ((appends_addIf _ _ _).bind himports))

/-- A PE image that is refused appends one remark. -/
theorem Pe.collect_appends (file : Bytes) :
    Appends (Pe.collect file) (Pe.inspect file).findings := by
  unfold Pe.collect Pe.inspect
  cases Pe.Image.ofBytes file with
  | error e => exact appends_note _
  | ok img => exact img.collect_appends

/-- Symbols that cannot be read show nothing of Rust. -/
theorem Elf.Image.appends_rustSymbols (img : Elf.Image) :
    Appends (addIf img.hasRustSymbols ["Rust"] "Found Rust symbols")
      img.inspectSymbols.findings := by
  unfold Elf.Image.hasRustSymbols Elf.Image.inspectSymbols
  cases img.symbolNames with
  | error e => exact appends_pure
  | ok names => exact appends_addIf (names.any isRustSymbol) _ _

/-- The three rules on an ELF file append what they show, in the order of the inspection. -/
theorem Elf.Image.collect_appends (img : Elf.Image) :
    Appends img.collect img.inspect.findings := by
  -- the libraries are looked at even if the symbols cannot be read, and the other way round
  have himports : Appends (addLibraries Elf.classifyLibrary? img.knownImports)
      img.inspectImports.findings := by
    unfold Elf.Image.inspectImports Elf.Image.knownImports
    cases img.importedLibraries with
    | error e => exact appends_pure
    | ok libraries => exact appends_addNames _ libraries
  unfold Elf.Image.inspect
  simp only [Inspection.findings_append, Findings.append_assoc]
  exact (appends_addIf _ _ _).bind (img.appends_rustSymbols.bind himports)

/-- An ELF file that is refused appends one remark. -/
theorem Elf.collect_appends (file : Bytes) :
    Appends (Elf.collect file) (Elf.inspect file).findings := by
  unfold Elf.collect Elf.inspect
  cases Elf.Image.ofBytes file with
  | error e => exact appends_note _
  | ok img => exact img.collect_appends

/-- The four rules on a Mach-O image append what they show, in the order of the inspection. -/
theorem MachO.Image.collect_appends (img : MachO.Image) :
    Appends img.collect img.inspect.findings := by
  have hlibraries : Appends (addLibraries MachO.classifyLibrary? img.importedLibraries)
      (Inspection.ofLibraries MachO.libraryMarkers img.importedLibraries).findings :=
    appends_addNames _ img.importedLibraries
  unfold MachO.Image.inspect
  simp only [Inspection.findings_append, Findings.append_assoc]
  exact (appends_addIf _ _ _).bind
    ((appends_addIf _ _ _).bind ((appends_addIf _ _ _).bind hlibraries))

/-- A Mach-O file appends what its one image shows, and a universal binary what the selected slice
does. -/
theorem MachO.collect_appends (host? : Option String) (file : Bytes) :
    Appends (MachO.collect host? file) (MachO.inspect host? file).findings := by
  -- the same three questions are asked by both: the length, the first word, and what the reader
  -- says
  unfold MachO.collect MachO.inspect
  by_cases hshort : file.size < headerSize
  · rw [if_pos hshort, if_pos hshort]
    exact appends_pure
  rw [if_neg hshort, if_neg hshort]
  by_cases hfat : bigWord file 0 ∈ universalMagics
  · rw [if_pos hfat, if_pos hfat, MachO.inspectUniversal]
    cases MachO.Universal.ofBytes file with
    | error e => exact appends_note _
    | ok u =>
      -- the line that says which slice is looked at goes to the log alone
      simp only
      cases u.select? host? with
      | none => exact appends_pure
      | some slice => exact slice.image.collect_appends
  · rw [if_neg hfat, if_neg hfat, MachO.inspectThin]
    cases MachO.Image.ofBytes file with
    | error e => exact appends_note _
    | ok img => exact img.collect_appends

/-- Each language whose signatures are there appends one signal. -/
theorem collectSignatures_appends (file : Bytes) :
    Appends (collectSignatures file) (inspectSignatures file).findings :=
  appends_forM (fun language : String => appends_addLanguages [language] _) _

/-- **A step appends what its input shows.** What has been collected before is kept as it is, and
plays no part in what is appended. -/
theorem Step.collect_appends (s : Step) : Appends s.collect s.found := by
  -- one case for each step; those that look at a file have been dealt with above
  cases s with
  | language l evidence => exact appends_addLanguages [l] evidence
  | languages ls evidence => exact appends_addLanguages ls evidence
  | note message => exact appends_note message
  | pe file => exact Pe.collect_appends file
  | elf file => exact Elf.collect_appends file
  | machO host? file => exact MachO.collect_appends host? file
  | machOUnreadable reason => exact appends_note _
  | signatures file => exact collectSignatures_appends file

/-!
## Runs

A run is its steps one after the other, and what it appends is what they append, by induction on the
steps.
-/

namespace Collector

/-- What an action appends to the empty collector is all that it ever appends. -/
theorem Appends.after_none {act : Collector} {found : Findings} (h : Appends act found) :
    act.after .none = found := by
  rw [h.after_eq, Findings.none_append]

end Collector

theorem collectAll_cons (s : Step) (rest : List Step) :
    collectAll (s :: rest) = s.collect >>= fun _ => collectAll rest :=
  List.forM_cons

/-- The first steps of a run come before the others. -/
theorem after_collectAll_append (first second : List Step) (start : Findings) :
    (collectAll (first ++ second)).after start
      = (collectAll second).after ((collectAll first).after start) := by
  unfold collectAll Collector.after
  rw [List.forM_eq_forM, List.forM_append, StateT.run_bind]
  rfl

/-- A run appends what its steps show, one after the other. -/
theorem collectAll_appends (steps : List Step) :
    Appends (collectAll steps)
      ⟨steps.flatMap (·.found.languages), steps.flatMap (·.found.evidence)⟩ := by
  -- appending is all that is carried along, so that the rest may start from anything
  induction steps with
  | nil => exact appends_pure
  | cons s rest ih =>
    rw [collectAll_cons]
    exact s.collect_appends.bind ih

/-- **A run appends the contributions of its steps.** Whatever has been collected, a step keeps both
lists as prefixes and appends what it appends to the empty collector, which is what the inspection
of its input shows. A run therefore ends with what it started from, followed by the contribution of
each step in step order, with repeats. -/
theorem run_appends_contributions (steps : List Step) (start : Findings) :
    (∀ (s : Step) (before : Findings),
      before.languages <+: (s.collect.after before).languages
        ∧ before.evidence <+: (s.collect.after before).evidence
        ∧ s.collect.after before = before ++ s.collect.after .none
        ∧ s.collect.after .none = s.found)
    ∧ (∀ i : Nat,
      ((collectAll (steps.take i)).after start).languages
          <+: ((collectAll (steps.take (i + 1))).after start).languages
        ∧ ((collectAll (steps.take i)).after start).evidence
          <+: ((collectAll (steps.take (i + 1))).after start).evidence)
    ∧ ((collectAll steps).after start).languages
        = start.languages ++ steps.flatMap (fun s => (s.collect.after .none).languages)
    ∧ ((collectAll steps).after start).evidence
        = start.evidence ++ steps.flatMap (fun s => (s.collect.after .none).evidence) := by
  have hstep : ∀ s : Step, s.collect.after .none = s.found :=
    fun s => s.collect_appends.after_none
  -- the state after any first steps of the run, in particular after all of them
  have hrun : ∀ (taken : List Step) (before : Findings), (collectAll taken).after before
      = before ++ ⟨taken.flatMap (·.found.languages), taken.flatMap (·.found.evidence)⟩ :=
    fun taken => (collectAll_appends taken).after_eq
  -- what one step does says all: the run is a sequence of them
  refine ⟨fun s before => ?_, fun i => ?_, ?_, ?_⟩
  · rw [hstep, s.collect_appends.after_eq]
    exact ⟨List.prefix_append _ _, List.prefix_append _ _, rfl, rfl⟩
  · -- one step more is one more step, or none if the run is over
    rw [List.take_add_one, after_collectAll_append,
      hrun _ ((collectAll (steps.take i)).after start)]
    exact ⟨List.prefix_append _ _, List.prefix_append _ _⟩
  · simp only [hstep, hrun, Findings.languages_append]
  · simp only [hstep, hrun, Findings.evidence_append]

end Provenance
