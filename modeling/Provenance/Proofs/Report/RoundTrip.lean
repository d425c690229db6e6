import Provenance.FilePath
import Provenance.Proofs.MessagePack.RoundTrip
import Provenance.Report

/-!
# Reports are read back

What is written into a report is read from it: every path as the text that it was written as, and
every verdict with all its parts, the doubles by their bits, and the lists with their repeats. All
that is asked of the texts is that they have bytes, and of texts and lists that their sizes do.

A record is a map under names. Two facts about records carry the rest: one fits if its parts fit,
and a part is found under its name.

* `record` — the pairs of a map under names.
* `Verdict.Encodable` — the texts of a verdict have bytes, and its lists are not too long.
* `GivenPath` — a path as a caller gives it.

Main result:

* `Report.read_of_write` — a report is written, and read as what was written.
-/

namespace Provenance

open MessagePack

/-!
## Records

A record is written as a mapping from the names of its fields, which are all different, so that each
field is found again under its name.
-/

/-- The pairs of a map under names. -/
def record (fields : List (String × Value)) : List (Value × Value) :=
  fields.map fun f => (.str f.1, f.2)

theorem fits_str {s : Text} (h : s.Encodable) (levels : Nat) : (Value.str s).Fits (levels + 1) := h

/-- A list of texts fits one level above them. -/
theorem fits_texts {texts : List Text} (hcount : texts.length < 0x100000000)
    (h : ∀ s ∈ texts, s.Encodable) (levels : Nat) :
    (Value.array (texts.map .str)).Fits (levels + 2) := by
  refine ⟨?_, ?_⟩
  · rw [List.length_map]
    exact hcount
  · intro v hv
    obtain ⟨s, hs, rfl⟩ := List.mem_map.mp hv
    exact fits_str (h s hs) levels

/-- A record fits one level above its parts. -/
theorem fits_record {fields : List (String × Value)} {names : List String} {levels : Nat}
    (hnames : fields.map (·.1) = names) (hcount : names.length < 0x100000000)
    (hnodup : names.Nodup) (hshort : ∀ name ∈ names, name.utf8ByteSize < 0x100000000)
    (hparts : ∀ f ∈ fields, f.2.Fits (levels + 1)) :
    (Value.map (record fields)).Fits (levels + 2) := by
  -- the keys of the record are its names, as texts
  have hkeys : (record fields).map (·.1)
      = names.map fun name : String => Value.str (Text.ofString name) := by
    rw [← hnames, record, List.map_map, List.map_map]
    rfl
  refine ⟨?_, ?_, ?_⟩
  · show (record fields).length < 0x100000000
    rwa [record, List.length_map, ← List.length_map, hnames]
  · intro p hp
    obtain ⟨f, hf, rfl⟩ := List.mem_map.mp hp
    have hname : f.1 ∈ names := hnames ▸ List.mem_map_of_mem hf
    exact ⟨rfl, ⟨f.1, rfl, hshort f.1 hname⟩, hparts f hf⟩
  · rw [hkeys]
    refine List.Pairwise.map _ ?_ hnodup
    intro name other hne heq
    exact hne (Text.ofString_injective (Value.str.inj heq))

/-- A part of a record is found under its name. -/
theorem field?_record (fields : List (String × Value)) (name : String) :
    Value.field? (record fields) name = (fields.find? (·.1 = name)).map (·.2) := by
  -- names are told apart as the texts that they are
  have hsame : ∀ f : String × Value,
      (Value.str f.1).sameKey (.str name) = decide (f.1 = name) := by
    intro f
    rw [Bool.eq_iff_iff, Value.sameKey_iff, decide_eq_true_eq]
    constructor
    · rintro ⟨heq, -⟩
      exact Text.ofString_injective (Value.str.inj heq)
    · rintro rfl
      exact ⟨rfl, rfl⟩
  rw [Value.field?, record, List.find?_map, Option.map_map]
  have hfun : (fun p : Value × Value => p.1.sameKey (.str name))
      ∘ (fun f : String × Value => ((.str f.1, f.2) : Value × Value))
        = fun f => decide (f.1 = name) := funext hsame
  rw [hfun]
  rfl

/-! ## Verdicts -/

namespace Verdict

/-- The texts of a verdict have bytes, and its lists are not too long. -/
structure Encodable (v : Verdict Text) : Prop where
  language : v.language.Encodable
  candidateCount : v.candidates.length < 0x100000000
  candidates : ∀ c ∈ v.candidates, c.Encodable
  evidenceCount : v.evidence.length < 0x100000000
  evidence : ∀ e ∈ v.evidence, e.Encodable
  platform : v.platform.Encodable

/-- The parts of a verdict under their names. -/
def fields (v : Verdict Value) : List (String × Value) := [
  ("primary_language", v.language),
  ("confidence", .float v.confidence),
  ("candidate_languages", .array v.candidates),
  ("evidence", .array v.evidence),
  ("container_format", .str v.format.name),
  ("platform", v.platform)]

/-- The names of the parts. -/
def fieldNames : List String := [
  "primary_language", "confidence", "candidate_languages", "evidence", "container_format",
  "platform"]

theorem map_fst_fields (v : Verdict Value) : v.fields.map (·.1) = fieldNames := rfl

theorem toValue_eq (v : Verdict Value) : v.toValue = .map (record v.fields) := rfl

/-- A verdict whose texts can be encoded fits, on three levels. -/
theorem fits_toValue {v : Verdict Text} (h : v.Encodable) (levels : Nat) :
    (v.map .str).toValue.Fits (levels + 3) := by
  have hname : (Text.ofString v.format.name).Encodable :=
    ⟨v.format.name, rfl, by cases v.format <;> decide⟩
  rw [toValue_eq]
  refine fits_record (map_fst_fields _) (by decide) (by decide) (by decide) ?_
  simp only [fields, List.forall_mem_cons]
  exact ⟨fits_str h.language _, trivial, fits_texts h.candidateCount h.candidates levels,
    fits_texts h.evidenceCount h.evidence levels, fits_str hname _, fits_str h.platform _, nofun⟩

theorem part_record {fields : List (String × Value)} {name : String} {v : Value}
    (h : fields.find? (·.1 = name) = some (name, v)) : part (record fields) name = .ok v := by
  rw [part, field?_record, h]
  rfl

/-- A verdict is got back from its map, whatever its texts are. -/
theorem ofValue_toValue (v : Verdict Value) : ofValue v.toValue = .ok v := by
  have hformat : formatOf (.str v.format.name) = .ok v.format := by
    simp only [formatOf, Text.toString?_ofString, Option.bind_some, ContainerFormat.ofName?_name]
    rfl
  -- the names of the fields differ, so that each look-up finds its own field
  have hlanguage : part (record v.fields) "primary_language" = .ok v.language := part_record rfl
  have hconfidence : part (record v.fields) "confidence" = .ok (.float v.confidence) :=
    part_record rfl
  have hcandidates : part (record v.fields) "candidate_languages" = .ok (.array v.candidates) :=
    part_record rfl
  have hevidence : part (record v.fields) "evidence" = .ok (.array v.evidence) := part_record rfl
  have hname : part (record v.fields) "container_format" = .ok (.str v.format.name) :=
    part_record rfl
  have hplatform : part (record v.fields) "platform" = .ok v.platform := part_record rfl
  rw [toValue_eq, ofValue, hlanguage, hconfidence, hcandidates, hevidence, hname, hplatform]
  show (formatOf (.str v.format.name)).bind _ = _
  rw [hformat]
  rfl

end Verdict

/-! ## Reports -/

/-- A path as a caller gives it. -/
inductive GivenPath where
  /-- The text of a path, which is taken as it is. -/
  | asText (text : Text)
  /-- A path, which is written out. -/
  | asPath (path : FilePath)

/-- The text that a path is reported as. -/
def GivenPath.shown : GivenPath → Text
  | asText text => text
  | asPath path => path.text

namespace Report

/-- The entry for a path and the verdict on it. -/
def Entry.ofGiven (given : GivenPath × Verdict Text) : Entry Text := ⟨given.1.shown, given.2⟩

/-- The texts of an entry have bytes, and its lists are not too long. -/
structure Entry.Encodable (e : Entry Text) : Prop where
  path : e.path.Encodable
  verdict : e.verdict.Encodable

namespace Entry

theorem toValue_eq (e : Entry Value) :
    e.toValue = .map (record [("path", e.path), ("result", e.verdict.toValue)]) := rfl

/-- An entry fits one level above its verdict. -/
theorem fits_toValue {e : Entry Text} (h : e.Encodable) (levels : Nat) :
    (e.map .str).toValue.Fits (levels + 4) := by
  rw [toValue_eq]
  have hnames : [("path", (e.map .str).path), ("result", (e.map .str).verdict.toValue)].map (·.1)
      = ["path", "result"] := rfl
  refine fits_record hnames (by decide) (by decide) (by decide) ?_
  simp only [List.forall_mem_cons]
  exact ⟨fits_str h.path _, Verdict.fits_toValue h.verdict levels, nofun⟩

/-- An entry is got back from its map. -/
theorem ofValue_toValue (e : Entry Value) : ofValue e.toValue = .ok e := by
  have hpath : keyed e.toValue "path" = .ok e.path := by
    rw [toValue_eq, keyed, field?_record]
    rfl
  have hresult : keyed e.toValue "result" = .ok e.verdict.toValue := by
    rw [toValue_eq, keyed, field?_record]
    rfl
  rw [ofValue, hpath, hresult]
  show ((Verdict.ofValue e.verdict.toValue).mapError EntryError.verdict).bind _ = _
  rw [Verdict.ofValue_toValue]
  rfl

end Entry

/-- The parts of a report under their names. -/
def fields (entries : List (Entry Value)) : List (String × Value) := [
  ("version", .int version),
  ("entries", .array (entries.map Entry.toValue))]

theorem toValue_eq (entries : List (Entry Value)) :
    toValue entries = .map (record (fields entries)) := rfl

/-- A report fits on six levels. -/
theorem fits_toValue {entries : List (Entry Text)} (hcount : entries.length < 0x100000000)
    (h : ∀ e ∈ entries, e.Encodable) (levels : Nat) :
    (toValue (entries.map (Entry.map .str))).Fits (levels + 6) := by
  have hnames : (fields (entries.map (Entry.map .str))).map (·.1) = ["version", "entries"] := rfl
  have hversion : (Value.int version).Fits (levels + 5) := by
    show -0x8000000000000000 ≤ version ∧ version < 0x10000000000000000
    decide
  -- the entries are a list, one level above each of them
  have hentries : (Value.array ((entries.map (Entry.map .str)).map Entry.toValue)).Fits
      (levels + 5) := by
    refine ⟨?_, ?_⟩
    · rw [List.length_map, List.length_map]
      exact hcount
    · intro v hv
      rw [List.map_map] at hv
      obtain ⟨e, he, rfl⟩ := List.mem_map.mp hv
      exact Entry.fits_toValue (h e he) levels
  rw [toValue_eq]
  refine fits_record hnames (by decide) (by decide) (by decide) ?_
  simp only [fields, List.forall_mem_cons]
  exact ⟨hversion, hentries, nofun⟩

/-- Entries are got back from their map, in their order. -/
theorem ofValue_toValue (entries : List (Entry Value)) :
    ofValue (toValue entries) = .ok entries := by
  -- the version is found to be the current one, and the entries under their name
  have hversion : Value.field? (record (fields entries)) "version" = some (.int version) := by
    rw [field?_record]
    rfl
  have hlisted : keyed (.map (record (fields entries))) "entries"
      = .ok (.array (entries.map Entry.toValue)) := by
    rw [keyed, field?_record]
    rfl
  have hitems : (entries.map Entry.toValue).mapM Entry.ofValue = .ok entries := by
    rw [mapM_eq_ok_iff, List.map_map]
    exact List.map_congr_left fun e _ => Entry.ofValue_toValue e
  have hentries : entriesOf (.map (record (fields entries))) = .ok entries := by
    rw [entriesOf, hlisted]
    exact hitems
  have hcurrent : isVersion ((some (Value.int version)).getD .nil) = true := rfl
  rw [toValue_eq, ofValue, hversion, if_pos hcurrent, hentries]
  rfl

/-- **A report is read as what was written.** Whatever verdicts are reported, on paths given as
texts or as paths, if all texts have bytes and sizes are below 2³², the report is written, and
reading it gives each path as its text and each verdict as it was, in the same order. -/
theorem read_of_write (reported : List (GivenPath × Verdict Text))
    (hcount : reported.length < 0x100000000)
    (htexts : ∀ r ∈ reported, r.1.shown.Encodable ∧ r.2.Encodable) :
    ∃ document, write ((reported.map Entry.ofGiven).map (Entry.map .str)) = .ok document
      ∧ read document.toArray
        = .ok (reported.map fun r => (⟨r.1.shown, r.2⟩ : Entry Text).map .str) := by
  have hentries : ∀ e ∈ reported.map Entry.ofGiven, e.Encodable := by
    intro e he
    obtain ⟨r, hr, rfl⟩ := List.mem_map.mp he
    exact ⟨(htexts r hr).1, (htexts r hr).2⟩
  have hlength : (reported.map Entry.ofGiven).length < 0x100000000 := by rwa [List.length_map]
  -- a report has six levels of values, of those that may be written
  obtain ⟨document, hdocument, hdecode⟩ :=
    decode_of_encode (fits_toValue hlength hentries (encodeLevels - 6))
  refine ⟨document, hdocument, ?_⟩
  rw [read, hdecode]
  show ofValue _ = _
  rw [ofValue_toValue, List.map_map]
  rfl

/-- One file given as a path and one as a text, with signals for several languages and for none. -/
theorem read_of_write_two :
    ∃ document,
      write ((([
          (.asPath ⟨.top, ["tmp", "grün"]⟩,
            ⟨"Rust", ⟨0x3FE5555555555555⟩, ["Rust", "Go", "Rust"], ["panic", "build", "panic"],
              .elf, "Unix/Linux"⟩),
          (.asText "a.exe", ⟨"Unknown", ⟨0⟩, [], [], .pe, "Windows"⟩)] :
            List (GivenPath × Verdict Text)).map Entry.ofGiven).map (Entry.map .str)) = .ok document
        ∧ read document.toArray = .ok [
          ⟨.str "/tmp/grün",
            ⟨.str "Rust", ⟨0x3FE5555555555555⟩, [.str "Rust", .str "Go", .str "Rust"],
              [.str "panic", .str "build", .str "panic"], .elf, .str "Unix/Linux"⟩⟩,
          ⟨.str "a.exe", ⟨.str "Unknown", ⟨0⟩, [], [], .pe, .str "Windows"⟩⟩] := by
  -- a literal is a string, and its length can be computed
  have hliteral : ∀ {s : String}, s.utf8ByteSize < 0x100000000 → (Text.ofString s).Encodable :=
    fun h => ⟨_, rfl, h⟩
  refine read_of_write [
    (.asPath ⟨.top, ["tmp", "grün"]⟩,
      ⟨"Rust", ⟨0x3FE5555555555555⟩, ["Rust", "Go", "Rust"], ["panic", "build", "panic"], .elf,
        "Unix/Linux"⟩),
    (.asText "a.exe", ⟨"Unknown", ⟨0⟩, [], [], .pe, "Windows"⟩)] (by decide) ?_
  simp only [List.forall_mem_cons]
  refine ⟨⟨⟨"/tmp/grün", rfl, by decide⟩, ?_⟩, ⟨hliteral (by decide), ?_⟩, nofun⟩
  · exact {
      language := hliteral (by decide)
      candidateCount := by decide
      candidates := by
        simp only [List.forall_mem_cons]
        exact ⟨hliteral (by decide), hliteral (by decide), hliteral (by decide), nofun⟩
      evidenceCount := by decide
      evidence := by
        simp only [List.forall_mem_cons]
        exact ⟨hliteral (by decide), hliteral (by decide), hliteral (by decide), nofun⟩
      platform := hliteral (by decide) }
  · exact ⟨hliteral (by decide), by decide, nofun, by decide, nofun, hliteral (by decide)⟩

end Report

end Provenance
