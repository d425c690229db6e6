import Provenance.Proofs.Report.Refusals
import Provenance.Proofs.Report.RoundTrip

/-!
# The shape of a report

A report is declared to hold the version 1 and a list of entries, each with a path that is a text
and a result whose language and platform are texts, whose confidence is a number, and whose
candidates and evidence are lists of texts. A reader asks for less. It compares the version as a
number, it takes whatever stands in the place of a text, and where a list or a number is needed it
takes all that can be made into one. A document that has the declared shape is read, but so are
documents that have another one.

Both shapes are the same tree of names, and differ in what is asked of the values at its leaves.

* `Value.Holds` — a map holds something with a property under a name.
* `Demands` — what is asked of the values at the leaves; `declared` and `accepted` are the two.
* `Demands.OfVerdict`, `Demands.OfEntry`, `Demands.OfReport` — the tree of names above them;
  `Demands.OfDocument` — the same of a document.

Main results:

* `Verdict.exists_ofValue_iff`, `Entry.exists_ofValue_iff`, `exists_entriesOf_iff` — a value is read
  exactly when it has the accepted shape.
* `declared_of_write` — what is written has the declared shape.
* `read_exactly_when_accepted` — a document is read exactly when it has the accepted shape; and if
  it has the declared one, as all that are written, then what is declared to be a text is read as
  one.
* `untypedReport_read` — a document is read that does not have the declared shape.
-/

namespace Provenance

open MessagePack

/-!
## What is asked of a document

The shape of a report is told by what is asked of each of its fields. The declared shape and the one
that is accepted ask for the same fields and differ in what they ask of them.
-/

/-- A map holds something with a property under a name. -/
def MessagePack.Value.Holds (v : Value) (name : String) (P : Value → Prop) : Prop :=
  ∃ pairs w, v = .map pairs ∧ Value.field? pairs name = some w ∧ P w

/-- A map holds what stands under a name. -/
theorem MessagePack.Value.holds_map_iff {pairs : List (Value × Value)} {name : String}
    {P : Value → Prop} :
    (Value.map pairs).Holds name P ↔ ∃ w, Value.field? pairs name = some w ∧ P w := by
  constructor
  · rintro ⟨_, w, ⟨⟩, hw, hP⟩
    exact ⟨w, hw, hP⟩
  · rintro ⟨w, hw, hP⟩
    exact ⟨pairs, w, rfl, hw, hP⟩

/-- A record holds its parts under their names. -/
theorem holds_record {fields : List (String × Value)} {name : String} {v : Value}
    {P : Value → Prop} (h : fields.find? (·.1 = name) = some (name, v)) (hP : P v) :
    (Value.map (record fields)).Holds name P := by
  rw [Value.holds_map_iff, field?_record, h]
  exact ⟨v, rfl, hP⟩

namespace Report

/-- What is asked of the values at the leaves of a report. -/
structure Demands where
  /-- What the version is. -/
  version : Value → Prop
  /-- A value is in order as the list of these entries. -/
  entries : Value → List Value → Prop
  /-- What stands in the place of a text. -/
  text : Value → Prop
  /-- What stands in the place of a number. -/
  number : Value → Prop
  /-- What stands in the place of a list of texts. -/
  texts : Value → Prop

/-- A value is the name of a container format. -/
def NamesFormat (v : Value) : Prop := ∃ f : ContainerFormat, v = .str f.name

/-- The parts of a verdict are there, and as demanded. -/
structure Demands.OfVerdict (d : Demands) (v : Value) : Prop where
  language : v.Holds "primary_language" d.text
  confidence : v.Holds "confidence" d.number
  candidates : v.Holds "candidate_languages" d.texts
  evidence : v.Holds "evidence" d.texts
  format : v.Holds "container_format" NamesFormat
  platform : v.Holds "platform" d.text

/-- The parts of an entry are there, and as demanded. -/
structure Demands.OfEntry (d : Demands) (v : Value) : Prop where
  path : v.Holds "path" d.text
  result : v.Holds "result" d.OfVerdict

/-- The parts of a report are there, and as demanded. -/
structure Demands.OfReport (d : Demands) (v : Value) : Prop where
  version : v.Holds "version" d.version
  entries : v.Holds "entries" fun listed => ∃ items, d.entries listed items
    ∧ ∀ item ∈ items, d.OfEntry item

/-- A document holds a report that is as demanded. -/
def Demands.OfDocument (d : Demands) (document : Bytes) : Prop :=
  ∃ v, decode document = .ok v ∧ d.OfReport v

/-! ### The declared shape -/

/-- Integers and doubles. -/
inductive IsNumber : Value → Prop where
  | int (n : Int) : IsNumber (.int n)
  | float (d : Double) : IsNumber (.float d)

/-- What reports are declared to hold. -/
def declared : Demands where
  version v := v = .int 1
  entries v items := v = .array items
  text v := ∃ s : Text, v = .str s
  number := IsNumber
  texts v := ∃ texts : List Text, v = .array (texts.map .str)

/-! ### The accepted shape -/

/-- Values that count as the number one. -/
inductive CountsAsOne : Value → Prop where
  | int : CountsAsOne (.int 1)
  | float : CountsAsOne (.float (.ofRatio false 1 1))
  | bool : CountsAsOne (.bool true)

/-- Values that a double can be made of. -/
inductive SpellsNumber : Value → Prop where
  | bool (b : Bool) : SpellsNumber (.bool b)
  | int (n : Int) : SpellsNumber (.int n)
  | float (d : Double) : SpellsNumber (.float d)
  | str (s : String) (h : (Double.ofText? s).isSome) : SpellsNumber (.str s)
  | bin (bs : List UInt8) (h : (Double.ofAscii? bs).isSome) : SpellsNumber (.bin bs)

theorem IsNumber.spellsNumber {v : Value} (h : IsNumber v) : SpellsNumber v := by
  cases h with
  | int n => exact .int n
  | float d => exact .float d

/-- Values that are made of values. -/
inductive IsSequence : Value → Prop where
  | str (s : Text) : IsSequence (.str s)
  | bin (bs : List UInt8) : IsSequence (.bin bs)
  | array (items : List Value) : IsSequence (.array items)
  | map (pairs : List (Value × Value)) : IsSequence (.map pairs)
  | ext (code : Nat) (payload : List UInt8) : IsSequence (.ext code payload)

/-- Values that can be gone through as a list of maps: what is made of other things passes for one
only if it is empty. -/
inductive ListsMaps : Value → List Value → Prop where
  | array (items : List Value) : ListsMaps (.array items) items
  | noText : ListsMaps (.str []) []
  | noBytes : ListsMaps (.bin []) []
  | noPairs : ListsMaps (.map []) []

/-- What a reader asks for. -/
def accepted : Demands where
  version := CountsAsOne
  entries := ListsMaps
  text _ := True
  number := SpellsNumber
  texts := IsSequence

end Report

/-! ## Verdicts -/

namespace Verdict

open Report

theorem part_eq_ok_iff {pairs : List (Value × Value)} {name : String} {v : Value} :
    part pairs name = .ok v ↔ Value.field? pairs name = some v := elim_eq_ok_iff

/-- A verdict is read part by part. -/
theorem ofValue_map_eq_ok_iff {pairs : List (Value × Value)} {r : Verdict Value} :
    ofValue (.map pairs) = .ok r
      ↔ part pairs "primary_language" = .ok r.language
        ∧ (∃ w, part pairs "confidence" = .ok w ∧ confidenceOf w = .ok r.confidence)
        ∧ (∃ w, part pairs "candidate_languages" = .ok w ∧ elementsOf w = .ok r.candidates)
        ∧ (∃ w, part pairs "evidence" = .ok w ∧ elementsOf w = .ok r.evidence)
        ∧ (∃ w, part pairs "container_format" = .ok w ∧ formatOf w = .ok r.format)
        ∧ part pairs "platform" = .ok r.platform := by
  constructor
  · intro h
    -- the parts in the order in which they are looked at
    obtain ⟨language, hlanguage, h⟩ := bind_eq_ok_iff.mp h
    obtain ⟨stated, hstated, h⟩ := bind_eq_ok_iff.mp h
    obtain ⟨confidence, hconfidence, h⟩ := bind_eq_ok_iff.mp h
    obtain ⟨listed, hlisted, h⟩ := bind_eq_ok_iff.mp h
    obtain ⟨candidates, hcandidates, h⟩ := bind_eq_ok_iff.mp h
    obtain ⟨noted, hnoted, h⟩ := bind_eq_ok_iff.mp h
    obtain ⟨evidence, hevidence, h⟩ := bind_eq_ok_iff.mp h
    obtain ⟨named, hnamed, h⟩ := bind_eq_ok_iff.mp h
    obtain ⟨format, hformat, h⟩ := bind_eq_ok_iff.mp h
    obtain ⟨platform, hplatform, h⟩ := bind_eq_ok_iff.mp h
    cases h
    exact ⟨hlanguage, ⟨stated, hstated, hconfidence⟩, ⟨listed, hlisted, hcandidates⟩,
      ⟨noted, hnoted, hevidence⟩, ⟨named, hnamed, hformat⟩, hplatform⟩
  · rintro ⟨hlanguage, ⟨stated, hstated, hconfidence⟩, ⟨listed, hlisted, hcandidates⟩,
      ⟨noted, hnoted, hevidence⟩, ⟨named, hnamed, hformat⟩, hplatform⟩
    rw [ofValue, hlanguage, hstated, hlisted, hnoted, hnamed, hplatform]
    -- what is made of a part stands in front as soon as the part has been found
    show (confidenceOf stated).bind _ = _
    rw [hconfidence]
    show (elementsOf listed).bind _ = _
    rw [hcandidates]
    show (elementsOf noted).bind _ = _
    rw [hevidence]
    show (formatOf named).bind _ = _
    rw [hformat]
    rfl

/-- A confidence is made of a value exactly if the value spells a number. -/
theorem exists_confidenceOf_iff {v : Value} (h : v.Storable) :
    (∃ d, confidenceOf v = .ok d) ↔ SpellsNumber v := by
  cases v with
  | bool b => exact iff_of_true ⟨_, rfl⟩ (.bool b)
  | int n =>
    -- only of an integer past the range there is no double
    obtain ⟨d, hd⟩ := h.exists_ofInt?
    refine iff_of_true ⟨d, ?_⟩ (.int n)
    rw [confidenceOf, hd]
    rfl
  | float d => exact iff_of_true ⟨d, rfl⟩ (.float d)
  | str s =>
    -- a text of a document is a string, so that only the numeral in it is in question
    obtain ⟨_, t, rfl, -⟩ := h.fitsWith
    simp only [confidenceOf, elim_eq_ok_iff, Text.toString?_ofString, Option.bind_some]
    constructor
    · rintro ⟨d, hd⟩
      exact .str t (Option.isSome_of_eq_some hd)
    · intro hspells
      -- a string is known by its text
      generalize hs : Value.str (Text.ofString t) = w at hspells
      cases hspells with
      | str t' ht =>
        rw [Text.ofString_injective (Value.str.inj hs)]
        exact Option.isSome_iff_exists.mp ht
      | _ => cases hs
  | bin bs =>
    simp only [confidenceOf, elim_eq_ok_iff]
    constructor
    · rintro ⟨d, hd⟩
      exact .bin bs (Option.isSome_of_eq_some hd)
    · intro hspells
      cases hspells with
      | bin _ hascii => exact Option.isSome_iff_exists.mp hascii
  | _ =>
    constructor
    · rintro ⟨_, ⟨⟩⟩
    · rintro ⟨⟩

/-- Elements are made of a value exactly if it is made of values. -/
theorem exists_elementsOf_iff {v : Value} : (∃ items, elementsOf v = .ok items) ↔ IsSequence v := by
  cases v with
  | str s => exact iff_of_true ⟨_, rfl⟩ (.str s)
  | bin bs => exact iff_of_true ⟨_, rfl⟩ (.bin bs)
  | array items => exact iff_of_true ⟨_, rfl⟩ (.array items)
  | map pairs => exact iff_of_true ⟨_, rfl⟩ (.map pairs)
  | ext code payload => exact iff_of_true ⟨_, rfl⟩ (.ext code payload)
  | _ =>
    constructor
    · rintro ⟨_, ⟨⟩⟩
    · rintro ⟨⟩

/-- A format is made of a value exactly if the value is its name. -/
theorem formatOf_eq_ok_iff {v : Value} {f : ContainerFormat} :
    formatOf v = .ok f ↔ v = .str f.name := by
  cases v with
  | str s =>
    rw [formatOf, elim_eq_ok_iff, Option.bind_eq_some_iff, Value.str.injEq]
    simp only [Text.toString?_eq_some_iff, ContainerFormat.ofName?_eq_some_iff]
    exact exists_eq_right
  | _ =>
    constructor
    · rintro ⟨⟩
    · rintro ⟨⟩

section Parts

variable {pairs : List (Value × Value)} {name : String} {P : Value → Prop}

theorem exists_part_iff :
    (∃ w, part pairs name = .ok w ∧ P w) ↔ (Value.map pairs).Holds name P := by
  simp only [part_eq_ok_iff]
  exact Value.holds_map_iff.symm

/-- A part is made into something exactly when it is there and has what that takes. -/
theorem exists_made_iff {α : Type} {make : Value → Except VerdictError α}
    (hmake : ∀ w, Value.field? pairs name = some w → ((∃ a, make w = .ok a) ↔ P w)) :
    (∃ a w, part pairs name = .ok w ∧ make w = .ok a) ↔ (Value.map pairs).Holds name P := by
  rw [← exists_part_iff, exists_comm]
  refine exists_congr fun w => ?_
  rw [exists_and_left]
  exact and_congr_right fun hw => hmake w (part_eq_ok_iff.mp hw)

end Parts

/-- **A verdict is read exactly when it has the accepted shape.** -/
theorem exists_ofValue_iff {v : Value} (h : v.Storable) :
    (∃ r, ofValue v = .ok r) ↔ accepted.OfVerdict v := by
  cases v with
  | map pairs =>
    -- one field at a time: it can be made into a part exactly when it holds a value of its kind
    have hnumber : (∃ d w, part pairs "confidence" = .ok w ∧ confidenceOf w = .ok d)
        ↔ (Value.map pairs).Holds "confidence" SpellsNumber :=
      exists_made_iff fun w hw => exists_confidenceOf_iff (h.field? hw)
    have hlist : ∀ name, (∃ items w, part pairs name = .ok w ∧ elementsOf w = .ok items)
        ↔ (Value.map pairs).Holds name IsSequence :=
      fun name => exists_made_iff fun w _ => exists_elementsOf_iff
    have hname : (∃ f w, part pairs "container_format" = .ok w ∧ formatOf w = .ok f)
        ↔ (Value.map pairs).Holds "container_format" NamesFormat :=
      exists_made_iff fun w _ => exists_congr fun f => formatOf_eq_ok_iff
    constructor
    -- what is read out of a mapping was made field by field
    · rintro ⟨r, hr⟩
      obtain ⟨hlanguage, hconfidence, hcandidates, hevidence, hformat, hplatform⟩ :=
        ofValue_map_eq_ok_iff.mp hr
      exact {
        language := exists_part_iff.mp ⟨_, hlanguage, trivial⟩
        confidence := hnumber.mp ⟨_, hconfidence⟩
        candidates := (hlist _).mp ⟨_, hcandidates⟩
        evidence := (hlist _).mp ⟨_, hevidence⟩
        format := hname.mp ⟨_, hformat⟩
        platform := exists_part_iff.mp ⟨_, hplatform, trivial⟩ }
    · intro hshape
      obtain ⟨language, hlanguage, -⟩ := exists_part_iff.mpr hshape.language
      obtain ⟨confidence, hconfidence⟩ := hnumber.mpr hshape.confidence
      obtain ⟨candidates, hcandidates⟩ := (hlist _).mpr hshape.candidates
      obtain ⟨evidence, hevidence⟩ := (hlist _).mpr hshape.evidence
      obtain ⟨format, hformat⟩ := hname.mpr hshape.format
      obtain ⟨platform, hplatform, -⟩ := exists_part_iff.mpr hshape.platform
      exact ⟨⟨language, confidence, candidates, evidence, format, platform⟩,
        ofValue_map_eq_ok_iff.mpr
          ⟨hlanguage, hconfidence, hcandidates, hevidence, hformat, hplatform⟩⟩
  | _ =>
    constructor
    · rintro ⟨_, ⟨⟩⟩
    · rintro ⟨⟨_, _, ⟨⟩, -⟩⟩

/-- A verdict of the declared shape is read, with texts for its texts. -/
theorem exists_ofValue_eq_texts {v : Value} (h : v.Storable) (hshape : declared.OfVerdict v) :
    -- each part is there in its declared kind, and what is made of it is of that kind
    ∃ r : Verdict Text, ofValue v = .ok (r.map .str) := by
  obtain ⟨pairs, _, rfl, -⟩ := hshape.language
  obtain ⟨_, hlanguage, language, rfl⟩ := exists_part_iff.mpr hshape.language
  obtain ⟨stated, hstated, hnumber⟩ := exists_part_iff.mpr hshape.confidence
  obtain ⟨_, hlisted, candidates, rfl⟩ := exists_part_iff.mpr hshape.candidates
  obtain ⟨_, hnoted, evidence, rfl⟩ := exists_part_iff.mpr hshape.evidence
  obtain ⟨_, hnamed, format, rfl⟩ := exists_part_iff.mpr hshape.format
  obtain ⟨_, hplatform, platform, rfl⟩ := exists_part_iff.mpr hshape.platform
  obtain ⟨confidence, hconfidence⟩ :=
    (exists_confidenceOf_iff (storable_of_part h hstated)).mpr hnumber.spellsNumber
  refine ⟨⟨language, confidence, candidates, evidence, format, platform⟩, ?_⟩
  exact ofValue_map_eq_ok_iff.mpr ⟨hlanguage, ⟨_, hstated, hconfidence⟩, ⟨_, hlisted, rfl⟩,
    ⟨_, hnoted, rfl⟩, ⟨_, hnamed, formatOf_eq_ok_iff.mpr rfl⟩, hplatform⟩

end Verdict

/-!
## Entries

An entry is read exactly when its fields are there and its verdict is read; a list of entries, when
each of them is.
-/

namespace Report

/-- A value is found under a key exactly if it is a map that holds one. -/
theorem exists_keyed_iff {v : Value} {key : String} {P : Value → Prop} :
    (∃ w, keyed v key = .ok w ∧ P w) ↔ v.Holds key P := by
  cases v with
  | map pairs =>
    simp only [keyed, elim_eq_ok_iff]
    exact Value.holds_map_iff.symm
  | _ =>
    constructor
    · rintro ⟨_, ⟨⟩, -⟩
    · rintro ⟨_, _, ⟨⟩, -⟩

/-- An entry is read as its path and its verdict. -/
theorem Entry.ofValue_eq_ok_iff {v : Value} {e : Entry Value} :
    Entry.ofValue v = .ok e ↔ keyed v "path" = .ok e.path
      ∧ ∃ w, keyed v "result" = .ok w ∧ Verdict.ofValue w = .ok e.verdict := by
  constructor
  · intro h
    obtain ⟨path, hpath, h⟩ := bind_eq_ok_iff.mp h
    obtain ⟨result, hresult, h⟩ := bind_eq_ok_iff.mp h
    obtain ⟨verdict, hverdict, h⟩ := bind_eq_ok_iff.mp h
    cases h
    exact ⟨hpath, result, hresult, mapError_eq_ok_iff.mp hverdict⟩
  · rintro ⟨hpath, result, hresult, hverdict⟩
    rw [Entry.ofValue, hpath, hresult]
    show ((Verdict.ofValue result).mapError EntryError.verdict).bind _ = _
    rw [hverdict]
    rfl

/-- **An entry is read exactly when it has the accepted shape.** -/
theorem Entry.exists_ofValue_iff {v : Value} (h : v.Storable) :
    (∃ e, Entry.ofValue v = .ok e) ↔ accepted.OfEntry v := by
  constructor
  · rintro ⟨e, he⟩
    obtain ⟨hpath, result, hresult, hverdict⟩ := Entry.ofValue_eq_ok_iff.mp he
    have hshape := (Verdict.exists_ofValue_iff (storable_of_keyed h hresult)).mp ⟨_, hverdict⟩
    exact ⟨exists_keyed_iff.mp ⟨_, hpath, trivial⟩, exists_keyed_iff.mp ⟨_, hresult, hshape⟩⟩
  · rintro ⟨hpath, hresult⟩
    obtain ⟨path, hpath, -⟩ := exists_keyed_iff.mpr hpath
    obtain ⟨result, hresult, hshape⟩ := exists_keyed_iff.mpr hresult
    obtain ⟨verdict, hverdict⟩ :=
      (Verdict.exists_ofValue_iff (storable_of_keyed h hresult)).mpr hshape
    exact ⟨⟨path, verdict⟩, Entry.ofValue_eq_ok_iff.mpr ⟨hpath, result, hresult, hverdict⟩⟩

/-- An entry of the declared shape is read, with texts for its texts. -/
theorem Entry.exists_ofValue_eq_texts {v : Value} (h : v.Storable) (hshape : declared.OfEntry v) :
    ∃ e : Entry Text, Entry.ofValue v = .ok (e.map .str) := by
  obtain ⟨_, hpath, path, rfl⟩ := exists_keyed_iff.mpr hshape.path
  obtain ⟨result, hresult, hverdict⟩ := exists_keyed_iff.mpr hshape.result
  obtain ⟨verdict, hverdict⟩ :=
    Verdict.exists_ofValue_eq_texts (storable_of_keyed h hresult) hverdict
  exact ⟨⟨path, verdict⟩, Entry.ofValue_eq_ok_iff.mpr ⟨hpath, result, hresult, hverdict⟩⟩

theorem Demands.OfEntry.exists_map {d : Demands} {v : Value} (h : d.OfEntry v) :
    ∃ pairs, v = .map pairs := by
  obtain ⟨pairs, _, hmap, -⟩ := h.path
  exact ⟨pairs, hmap⟩

/-- What is made of maps is a list, or made of nothing. -/
theorem elements?_eq_some_iff {v : Value} {items : List Value} (h : v.Storable)
    (hmaps : ∀ item ∈ items, ∃ pairs, item = .map pairs) :
    v.elements? = some items ↔ ListsMaps v items := by
  -- elements that are no maps are none of the items
  have hnone : ∀ {α : Type} {f : α → Value} {xs : List α}, items = xs.map f →
      (∀ x ∈ xs, ∀ pairs, f x ≠ .map pairs) → xs = [] := by
    intro α f xs hitems hother
    refine List.eq_nil_iff_forall_not_mem.mpr fun x hx => ?_
    obtain ⟨pairs, hmap⟩ := hmaps (f x) (hitems ▸ List.mem_map_of_mem hx)
    exact hother x hx pairs hmap
  constructor
  · intro hitems
    cases v with
    | str s =>
      cases hnone (Option.some.inj hitems).symm fun c _ => nofun
      cases hitems
      exact .noText
    | bin bs =>
      cases hnone (Option.some.inj hitems).symm fun b _ => nofun
      cases hitems
      exact .noBytes
    | array items =>
      cases hitems
      exact .array items
    | map pairs =>
      -- a map is gone through by its keys, and of a document these are texts or byte strings
      obtain ⟨_, -, hpairs, -⟩ := h.fitsWith
      have hkeys : ∀ p ∈ pairs, ∀ inner, p.1 ≠ .map inner := by
        intro p hp inner hinner
        have hkey := (hpairs p hp).1
        rw [hinner] at hkey
        cases hkey
      cases hnone (Option.some.inj hitems).symm hkeys
      cases hitems
      exact .noPairs
    | ext code payload =>
      cases hitems
      obtain ⟨_, hmap⟩ := hmaps _ (List.mem_cons_self ..)
      cases hmap
    | _ => cases hitems
  · rintro (_ | _) <;> rfl

theorem entriesOf_eq_ok_iff {v : Value} {entries : List (Entry Value)} :
    entriesOf v = .ok entries ↔ ∃ listed, keyed v "entries" = .ok listed
      ∧ ∃ items, listed.elements? = some items ∧ items.mapM Entry.ofValue = .ok entries := by
  simp only [entriesOf, bind_eq_ok_iff, elim_eq_ok_iff]

/-- **Entries are read exactly when each has the accepted shape**, and what they are taken from is a
list unless there are none. -/
theorem exists_entriesOf_iff {v : Value} (h : v.Storable) :
    (∃ entries, entriesOf v = .ok entries)
      ↔ v.Holds "entries" fun listed => ∃ items, ListsMaps listed items
        ∧ ∀ item ∈ items, accepted.OfEntry item := by
  rw [← exists_keyed_iff]
  simp only [entriesOf_eq_ok_iff]
  -- the same value is listed, and the same items are in it
  rw [exists_comm]
  refine exists_congr fun listed => ?_
  rw [exists_and_left]
  refine and_congr_right fun hlisted => ?_
  rw [exists_comm]
  refine exists_congr fun items => ?_
  rw [exists_and_left, exists_mapM_eq_ok_iff]
  have hstorable := storable_of_keyed h hlisted
  constructor
  · rintro ⟨hitems, hall⟩
    have hshape : ∀ item ∈ items, accepted.OfEntry item := by
      intro item hitem
      exact (Entry.exists_ofValue_iff (hstorable.elements? hitems item hitem)).mp (hall item hitem)
    exact ⟨(elements?_eq_some_iff hstorable fun item hitem => (hshape item hitem).exists_map).mp
      hitems, hshape⟩
  · rintro ⟨hlists, hshape⟩
    have hitems := (elements?_eq_some_iff hstorable
      fun item hitem => (hshape item hitem).exists_map).mpr hlists
    refine ⟨hitems, fun item hitem => ?_⟩
    exact (Entry.exists_ofValue_iff (hstorable.elements? hitems item hitem)).mpr (hshape item hitem)

/-! ## Reports -/

/-- The reader takes a version for the current one exactly if it counts as the number one. -/
theorem isVersion_iff {v : Value} : isVersion v = true ↔ CountsAsOne v := by
  cases v with
  | bool b =>
    cases b with
    | true => exact iff_of_true rfl .bool
    | false =>
      constructor
      · rintro ⟨⟩
      · rintro ⟨⟩
  | int n =>
    rw [isVersion, beq_iff_eq]
    constructor
    · rintro rfl
      exact .int
    · rintro ⟨⟩
      rfl
  | float d =>
    rw [isVersion, Double.isOne, beq_iff_eq]
    constructor
    · intro hbits
      -- of all bit patterns only one is equal to one
      have hone : d = .ofRatio false 1 1 := by
        cases d
        cases hbits
        decide
      rw [hone]
      exact .float
    · rintro ⟨⟩
      decide
  | _ =>
    constructor
    · rintro ⟨⟩
    · rintro ⟨⟩

/-- A report is read exactly if its version counts as one, and as its entries. -/
theorem ofValue_eq_ok_iff {v : Value} {entries : List (Entry Value)} :
    ofValue v = .ok entries ↔ v.Holds "version" CountsAsOne ∧ entriesOf v = .ok entries := by
  cases v with
  | map pairs =>
    have hversion : isVersion ((Value.field? pairs "version").getD .nil) = true
        ↔ (Value.map pairs).Holds "version" CountsAsOne := by
      rw [Value.holds_map_iff]
      cases hstated : Value.field? pairs "version" with
      | none =>
        constructor
        · rintro ⟨⟩
        · rintro ⟨_, ⟨⟩, -⟩
      | some stated =>
        rw [Option.getD_some, isVersion_iff]
        simp only [Option.some.injEq, exists_eq_left']
    -- the entries are looked at only in a report of the current version
    rw [ofValue, ← hversion]
    by_cases hone : isVersion ((Value.field? pairs "version").getD .nil) = true
    · rw [if_pos hone, mapError_eq_ok_iff]
      exact (and_iff_right hone).symm
    · rw [if_neg hone]
      constructor
      · rintro ⟨⟩
      · exact fun h => absurd h.1 hone
  | _ =>
    constructor
    · rintro ⟨⟩
    · rintro ⟨⟨_, _, ⟨⟩, -⟩, -⟩

/-- **A report is read exactly when it has the accepted shape.** -/
theorem exists_ofValue_iff {v : Value} (h : v.Storable) :
    (∃ entries, ofValue v = .ok entries) ↔ accepted.OfReport v := by
  simp only [ofValue_eq_ok_iff]
  rw [exists_and_left, exists_entriesOf_iff h]
  exact ⟨fun ⟨hversion, hentries⟩ => ⟨hversion, hentries⟩, fun h => ⟨h.version, h.entries⟩⟩

/-- A report of the declared shape is read, with texts for its texts. -/
theorem exists_ofValue_eq_texts {v : Value} (h : v.Storable) (hshape : declared.OfReport v) :
    ∃ entries : List (Entry Text), ofValue v = .ok (entries.map (Entry.map .str)) := by
  -- the list under the name is one of items, and each of them is an entry with texts
  obtain ⟨listed, hlisted, items, rfl, hitems⟩ := exists_keyed_iff.mpr hshape.entries
  have hall : ∀ item ∈ items, ∃ e : Entry Text, Entry.ofValue item = .ok (e.map .str) := by
    intro item hitem
    have hstorable := (storable_of_keyed h hlisted).elements? rfl item hitem
    exact Entry.exists_ofValue_eq_texts hstorable (hitems item hitem)
  obtain ⟨entries, hentries⟩ := exists_mapM_eq_ok_map hall
  refine ⟨entries, ofValue_eq_ok_iff.mpr ⟨?_, ?_⟩⟩
  · obtain ⟨pairs, _, rfl, hversion, rfl⟩ := hshape.version
    exact ⟨pairs, _, rfl, hversion, .int⟩
  · exact entriesOf_eq_ok_iff.mpr ⟨_, hlisted, items, rfl, hentries⟩

/-- What is written has the declared shape. -/
theorem declared_toValue (entries : List (Entry Text)) :
    declared.OfReport (toValue (entries.map (Entry.map .str))) := by
  -- from the inside out; each look-up in a record that is written out is computed
  have hverdict : ∀ r : Verdict Text, declared.OfVerdict (r.map .str).toValue := by
    intro r
    rw [Verdict.toValue_eq]
    exact {
      language := holds_record rfl ⟨_, rfl⟩
      confidence := holds_record rfl (.float _)
      candidates := holds_record rfl ⟨_, rfl⟩
      evidence := holds_record rfl ⟨_, rfl⟩
      format := holds_record rfl ⟨_, rfl⟩
      platform := holds_record rfl ⟨_, rfl⟩ }
  have hentry : ∀ e : Entry Text, declared.OfEntry (e.map .str).toValue := by
    intro e
    rw [Entry.toValue_eq]
    exact ⟨holds_record rfl ⟨_, rfl⟩, holds_record rfl (hverdict e.verdict)⟩
  rw [toValue_eq]
  refine ⟨holds_record rfl rfl, holds_record rfl ⟨_, rfl, ?_⟩⟩
  intro item hitem
  rw [List.map_map] at hitem
  obtain ⟨e, -, rfl⟩ := List.mem_map.mp hitem
  exact hentry e

/-- A document that was written for some entries has the declared shape. -/
theorem declared_of_write {entries : List (Entry Text)} {document : Bytes}
    (hcount : entries.length < 0x100000000) (hentries : ∀ e ∈ entries, e.Encodable)
    (hwrite : write (entries.map (Entry.map .str)) = .ok document.toList) :
    declared.OfDocument document := by
  obtain ⟨written, hwritten, hdecode⟩ :=
    decode_of_encode (fits_toValue hcount hentries (encodeLevels - 6))
  cases hwritten.symm.trans hwrite
  exact ⟨_, hdecode, declared_toValue entries⟩

/-- A document that holds a value is read by looking at that value. -/
theorem read_of_decode {document : Bytes} {v : Value} (h : decode document = .ok v) :
    read document = ofValue v := by
  rw [read, h]

/-- A document that holds no value is refused for what is wrong with its bytes. -/
theorem read_of_not_decode {document : Bytes} {cause : DecodeError}
    (h : decode document = .error cause) : read document = .error (.unparsable cause) := by
  rw [read, h]

/-- **Which documents are read.** A document is read exactly when it holds a report of the accepted
shape; any other is refused, with a failure that is taken for a fault of the document. If the report
has the declared shape, then the path, the language, the platform, the candidates and the evidence
of each entry are read as texts. What is written for entries with texts has that shape. -/
theorem read_exactly_when_accepted (document : Bytes) :
    ((∃ entries, read document = .ok entries) ↔ accepted.OfDocument document)
      ∧ ((∃ e, read document = .error e ∧ ¬ e.GoesThrough) ↔ ¬ accepted.OfDocument document)
      ∧ (declared.OfDocument document →
        ∃ entries : List (Entry Text), read document = .ok (entries.map (Entry.map .str)))
      ∧ (∀ entries : List (Entry Text), entries.length < 0x100000000 →
        (∀ e ∈ entries, e.Encodable) →
        write (entries.map (Entry.map .str)) = .ok document.toList →
          declared.OfDocument document) := by
  cases hdecode : decode document with
  | error cause =>
    -- no value, and so none of any shape
    have hnone : ∀ d : Demands, ¬ d.OfDocument document := by
      rintro d ⟨v, hv, -⟩
      rw [hdecode] at hv
      cases hv
    rw [read_of_not_decode hdecode]
    have hfault : ¬ (ReadError.unparsable cause).GoesThrough :=
      fun hthrough => hthrough (mishap_mem_faultsOfBytes cause)
    exact ⟨iff_of_false nofun (hnone _), iff_of_true ⟨_, rfl, hfault⟩ (hnone _),
      fun h => absurd h (hnone _), fun _ => declared_of_write⟩
  | ok v =>
    have hstorable : v.Storable := ⟨_, fits_of_decode hdecode⟩
    -- a document holds one value, and what is asked of the one is asked of the other
    have hshape : ∀ d : Demands, d.OfDocument document ↔ d.OfReport v := by
      intro d
      simp only [Demands.OfDocument, hdecode, Except.ok.injEq, exists_eq_left']
    rw [read_of_decode hdecode, hshape, hshape]
    refine ⟨exists_ofValue_iff hstorable, ?_, exists_ofValue_eq_texts hstorable,
      fun _ hcount hentries hwrite =>
        (hshape declared).mp (declared_of_write hcount hentries hwrite)⟩
    rw [← exists_ofValue_iff hstorable]
    cases hresult : ofValue v with
    | ok entries => exact iff_of_false nofun fun hnot => hnot ⟨entries, rfl⟩
    | error e => exact iff_of_true ⟨e, rfl, not_goesThrough_of_ofValue hstorable hresult⟩ nofun

/-- The result of an entry with nothing for its language and its platform, and with a text for the
list of its candidates. -/
def untypedResult : List (String × Value) := [
  ("primary_language", .nil),
  ("confidence", .float (.ofRatio false 1 1)),
  ("candidate_languages", .str "Go"),
  ("evidence", .array []),
  ("container_format", .str "ELF"),
  ("platform", .nil)]

/-- An entry with that result and with a number for its path. -/
def untypedEntry : List (String × Value) :=
  [("path", .int 7), ("result", .map (record untypedResult))]

/-- A report with that entry. -/
def untypedReport : List (String × Value) :=
  [("version", .int 1), ("entries", .array [.map (record untypedEntry)])]

/-- The report can be written, on five levels. -/
theorem fits_untypedReport (levels : Nat) :
    (Value.map (record untypedReport)).Fits (levels + 5) := by
  have htext : ∀ {s : String}, s.utf8ByteSize < 0x100000000 → (Value.str s).Fits (levels + 1) :=
    fun h => fits_str ⟨_, rfl, h⟩ levels
  have hint : ∀ {n : Int}, 0 ≤ n → n < 8 → ∀ levels : Nat, (Value.int n).Fits (levels + 1) := by
    intro n hlow hhigh levels
    show -0x8000000000000000 ≤ n ∧ n < 0x10000000000000000
    omega
  -- from the inside out: the verdict, then its entry, then the report
  have hresult : (Value.map (record untypedResult)).Fits (levels + 2) := by
    refine fits_record rfl (by decide) (by decide) (by decide) ?_
    simp only [untypedResult, List.forall_mem_cons]
    have hnone : 0 < 0x100000000 := by decide
    exact ⟨trivial, trivial, htext (by decide), ⟨hnone, nofun⟩, htext (by decide), trivial, nofun⟩
  have hentry : (Value.map (record untypedEntry)).Fits (levels + 3) := by
    refine fits_record rfl (by decide) (by decide) (by decide) ?_
    simp only [untypedEntry, List.forall_mem_cons]
    exact ⟨hint (by decide) (by decide) _, hresult, nofun⟩
  refine fits_record rfl (by decide) (by decide) (by decide) ?_
  simp only [untypedReport, List.forall_mem_cons]
  have hone : 1 < 0x100000000 := by decide
  refine ⟨hint (by decide) (by decide) _, ⟨hone, ?_⟩, nofun⟩
  intro v hv
  cases List.mem_singleton.mp hv
  exact hentry

/-- This report is read, although it does not have the declared shape. The text for the candidates
is read as a list of its letters. -/
theorem untypedReport_read :
    ∃ document, encode (.map (record untypedReport)) = .ok document
      ∧ read document.toArray
        = .ok [⟨.int 7, ⟨.nil, .ofRatio false 1 1, [.str "G", .str "o"], [], .elf, .nil⟩⟩]
      ∧ ¬ declared.OfDocument document.toArray := by
  obtain ⟨document, hdocument, hdecode⟩ := decode_of_encode (fits_untypedReport (encodeLevels - 5))
  refine ⟨document, hdocument, ?_, ?_⟩
  · rw [read_of_decode hdecode]
    rfl
  · -- the path of its entry is no text
    rintro ⟨v, hv, hshape⟩
    cases hdecode.symm.trans hv
    obtain ⟨listed, hlisted, items, hitems, hall⟩ := Value.holds_map_iff.mp hshape.entries
    rw [field?_record] at hlisted
    cases hlisted
    cases hitems
    obtain ⟨path, hpath, s, hs⟩ :=
      Value.holds_map_iff.mp (hall _ (List.mem_singleton_self _)).path
    rw [field?_record] at hpath
    cases hpath
    cases hs

end Report

end Provenance
