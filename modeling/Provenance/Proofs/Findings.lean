import Provenance.Findings

/-!
# Properties of findings

What holds of every language, every line of evidence and every diagnostic of an inspection.
Inspections are appended part by part, and so a property of the whole is one of the parts.

* `Inspection.Each` — the languages have one property, the lines of evidence another, and the
  diagnostics a third.
* `Inspection.each_concat` — several inspections, by induction on their number.
* `Inspection.each_ofNames`, `Inspection.each_ofLibraries` — signals for the names that a rule
  recognises, told from the rule.
-/

namespace Provenance.Inspection

/-- Each language of an inspection has one property, each line of evidence another, and each
diagnostic a third. -/
structure Each (P Q R : Text → Prop) (i : Inspection) : Prop where
  languages : ∀ t ∈ i.findings.languages, P t
  evidence : ∀ t ∈ i.findings.evidence, Q t
  log : ∀ t ∈ i.log, R t

variable {P Q R : Text → Prop}

theorem each_nothing : nothing.Each P Q R := ⟨nofun, nofun, nofun⟩

theorem each_noted {line : Text} (h : R line) : (noted line).Each P Q R :=
  ⟨nofun, nofun, List.forall_mem_singleton.mpr h⟩

theorem each_remark {message : Text} {log : List Text} (hmessage : Q message)
    (hlog : ∀ t ∈ log, R t) : Each P Q R ⟨.remark message, log⟩ :=
  ⟨nofun, List.forall_mem_singleton.mpr hmessage, hlog⟩

theorem each_signal {languages log : List Text} {evidence : Text}
    (hlanguages : ∀ t ∈ languages, P t) (hevidence : Q evidence) (hlog : ∀ t ∈ log, R t) :
    Each P Q R ⟨.signal languages evidence, log⟩ :=
  ⟨hlanguages, List.forall_mem_singleton.mpr hevidence, hlog⟩

/-- What holds of two inspections holds of both together. -/
theorem Each.append {a b : Inspection} (ha : a.Each P Q R) (hb : b.Each P Q R) :
    (a ++ b).Each P Q R :=
  ⟨List.forall_mem_append.mpr ⟨ha.languages, hb.languages⟩,
    List.forall_mem_append.mpr ⟨ha.evidence, hb.evidence⟩,
    List.forall_mem_append.mpr ⟨ha.log, hb.log⟩⟩

/-- A signal that is not raised has every property. -/
theorem each_signalIf (holds : Bool) {languages : List Text} {evidence : Text}
    (hlanguages : ∀ t ∈ languages, P t) (hevidence : Q evidence) :
    (signalIf holds languages evidence).Each P Q R := by
  cases holds with
  | false => exact each_nothing
  | true => exact each_signal hlanguages hevidence nofun

/-- What holds of all parts holds of them together. -/
theorem each_concat {parts : List Inspection} (h : ∀ p ∈ parts, p.Each P Q R) :
    (concat parts).Each P Q R := by
  induction parts with
  | nil => exact each_nothing
  | cons p rest ih =>
    obtain ⟨hp, hrest⟩ := List.forall_mem_cons.mp h
    exact hp.append (ih hrest)

/-- Each signal is what the rule makes of one of the names. -/
theorem each_ofNames {rule : Text → Option (List Text × Text)} {names : List String}
    (hrule : ∀ name ∈ names, ∀ languages evidence, rule name = some (languages, evidence) →
      (∀ t ∈ languages, P t) ∧ Q evidence) : (ofNames rule names).Each P Q R := by
  apply each_concat
  intro p hp
  obtain ⟨⟨languages, evidence⟩, hhit, rfl⟩ := List.mem_map.mp hp
  obtain ⟨name, hname, hrecognised⟩ := List.mem_filterMap.mp hhit
  obtain ⟨hlanguages, hevidence⟩ := hrule name hname languages evidence hrecognised
  exact each_signal hlanguages hevidence nofun

/-- Each signal is what a marker says about one of the libraries. -/
theorem each_ofLibraries {markers : List LibraryMarker} {libraries : List String}
    (h : ∀ m ∈ markers, ∀ library ∈ libraries,
      P m.language ∧ Q (m.label ++ ": " ++ Text.ofString library)) :
    (ofLibraries markers libraries).Each P Q R := by
  apply each_ofNames
  -- the marker that was found is one of the list
  intro library hlibrary languages evidence hhit
  obtain ⟨⟨language, line⟩, hmarked, heq⟩ := Option.map_eq_some_iff.mp hhit
  obtain ⟨m, hfind, hm⟩ := Option.map_eq_some_iff.mp hmarked
  cases hm
  cases heq
  obtain ⟨hlanguage, hline⟩ := h m (List.mem_of_find?_eq_some hfind) library hlibrary
  exact ⟨List.forall_mem_singleton.mpr hlanguage, hline⟩

end Provenance.Inspection
