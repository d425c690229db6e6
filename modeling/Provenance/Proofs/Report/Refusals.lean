import Provenance.Proofs.Answers
import Provenance.Proofs.MessagePack.Decoded
import Provenance.Proofs.Number
import Provenance.Report

/-!
# Documents that are no report

A reader of reports gets its documents from anywhere. Whatever bytes it is given, and whatever value
stands where it looks for a map, a list, a number or a name, it ends with entries or says that the
document is no report. It does so by taking a failure that it meets for a fault of the document, and
there is one kind of failure that it would not take for one: a number that no double comes near.
That kind is out of reach, since the integers of a document have 64 bits.

* `Mishap` — the kinds of failure; `DecodeError.mishap`, `VerdictError.mishap`, `EntryError.mishap`.
* `ReadError.GoesThrough` — a failure would go through to the caller as what it is.
* `Value.Storable` — a value that some document holds, or a part of one.

Main results:

* `entriesOf_ne_tooLarge` — the entries of a value that a document holds meet no such number.
* `read_or_refused` — a document is read or refused.
-/

namespace Provenance

open MessagePack

/-!
## Kinds of failure

Each failure of a reader of documents is of a kind, and a few kinds are turned into the refusal of
the report. The others would go through to the caller.
-/

/-- The kinds of failure that a reader of reports meets. -/
inductive Mishap where
  /-- Bytes that spell no value. -/
  | malformed
  /-- A key that is not there. -/
  | missingKey
  /-- A value of a kind that cannot be used in its place. -/
  | wrongKind
  /-- A value that cannot be used in its place, although others of its kind can. -/
  | wrongValue
  /-- A number past the range. -/
  | outOfRange
  deriving DecidableEq, Repr

/-- What is met in the bytes of a document. -/
def MessagePack.DecodeError.mishap : DecodeError → Mishap
  | reservedByte | tooDeep | leftover => .malformed
  | malformedText | truncated | oversized | unsupportedKey | unsupportedExtension => .wrongValue

/-- What is met in the map of a verdict. A missing part counts as a fault of the whole map. -/
def VerdictError.mishap : VerdictError → Mishap
  | notAMap | notANumber _ | notASequence _ => .wrongKind
  | missingField _ | unreadableNumber _ | unknownFormat _ => .wrongValue
  | numberTooLarge => .outOfRange

namespace Report

/-- What is met in the entries. -/
def EntryError.mishap : EntryError → Mishap
  | missingKey _ => .missingKey
  | wrongKind _ => .wrongKind
  | verdict cause => cause.mishap

/-- What is taken for a fault of the document while its bytes are read. -/
def faultsOfBytes : List Mishap := [.malformed, .wrongValue]

/-- What is taken for a fault of the document while its entries are looked at. -/
def faultsOfEntries : List Mishap := [.missingKey, .wrongKind, .wrongValue]

/-- A failure would go through to the caller as what it is, since it is not taken for a fault of the
document. -/
def ReadError.GoesThrough : ReadError → Prop
  | unparsable cause => cause.mishap ∉ faultsOfBytes
  | notAMap _ | unsupportedVersion _ => False
  | invalidEntry cause => cause.mishap ∉ faultsOfEntries

end Report

/-- A number past the range would go through, if it could be met. -/
example : (Report.ReadError.invalidEntry (.verdict .numberTooLarge)).GoesThrough := by
  unfold Report.ReadError.GoesThrough
  decide

/-! ## Parts of what a document holds -/

namespace MessagePack.Value

/-- A value that some document holds, or a part of one. -/
def Storable (v : Value) : Prop := ∃ levels, v.Fits levels

/-- What some document holds fits at some level, and so what is in it does one level below. -/
theorem Storable.fitsWith {v : Value} (h : v.Storable) : ∃ levels, v.FitsWith (Fits levels) := by
  obtain ⟨levels, h⟩ := h
  cases levels with
  | zero => exact h.elim
  | succ levels => exact ⟨levels, h⟩

/-- What a map holds under a name. -/
theorem Storable.field? {pairs : List (Value × Value)} {name : String} {v : Value}
    (h : (map pairs).Storable) (hv : Value.field? pairs name = some v) : v.Storable := by
  obtain ⟨levels, -, hparts, -⟩ := h.fitsWith
  rw [Value.field?, Option.map_eq_some_iff] at hv
  obtain ⟨p, hp, rfl⟩ := hv
  exact ⟨levels, (hparts p (List.mem_of_find?_eq_some hp)).2.2⟩

/-- What a value is made of. -/
theorem Storable.elements? {v : Value} {parts : List Value} (h : v.Storable)
    (hparts : v.elements? = some parts) : ∀ w ∈ parts, w.Storable := by
  obtain ⟨levels, hfits⟩ := h.fitsWith
  intro w hw
  -- one case for each kind that is made of values; the parts of most are no more than leaves
  cases v with
  | str s =>
    cases hparts
    obtain ⟨t, rfl, -⟩ := hfits
    obtain ⟨c, hc, rfl⟩ := List.mem_map.mp hw
    obtain ⟨ch, -, rfl⟩ := List.mem_map.mp hc
    -- a character has at most four bytes
    have hsize : (String.singleton ch).utf8ByteSize < 0x100000000 := by
      have := ch.utf8Size_le_four
      rw [String.utf8ByteSize_singleton]
      omega
    refine ⟨1, String.singleton ch, ?_, hsize⟩
    rw [Text.ofString, String.toList_singleton]
    rfl
  | bin bs =>
    cases hparts
    obtain ⟨b, -, rfl⟩ := List.mem_map.mp hw
    have hb := b.toNat_lt
    have hfits : (Head.int b.toNat).Fits := by
      show -0x8000000000000000 ≤ (b.toNat : Int) ∧ (b.toNat : Int) < 0x10000000000000000
      omega
    exact ⟨1, hfits⟩
  | array items =>
    cases hparts
    exact ⟨levels, hfits.2 w hw⟩
  | map pairs =>
    cases hparts
    obtain ⟨p, hp, rfl⟩ := List.mem_map.mp hw
    exact ⟨levels, (hfits.2.1 p hp).2.1⟩
  | ext code payload =>
    cases hparts
    obtain ⟨hcode, hsize⟩ := hfits
    rcases List.mem_cons.mp hw with rfl | hw
    · have hfits : (Head.int code).Fits := by
        show -0x8000000000000000 ≤ (code : Int) ∧ (code : Int) < 0x10000000000000000
        omega
      exact ⟨1, hfits⟩
    · cases List.mem_singleton.mp hw
      exact ⟨1, hsize⟩
  | _ => cases hparts

/-- An integer of a document has a double. -/
theorem Storable.exists_ofInt? {n : Int} (h : (int n).Storable) :
    ∃ d, Double.ofInt? n = some d := by
  obtain ⟨-, hlow, hhigh⟩ := h.fitsWith
  exact Double.exists_ofInt? hlow hhigh

end MessagePack.Value

/-!
## No number is past the range

The only kind that could go through is that of a whole number too large for a double. A number out
of a document has at most 64 bits, and every such number is within the range.
-/

namespace Verdict

theorem part_ne_tooLarge (pairs : List (Value × Value)) (name : String) :
    part pairs name ≠ .error .numberTooLarge :=
  elim_ne_error nofun

theorem elementsOf_ne_tooLarge (v : Value) : elementsOf v ≠ .error .numberTooLarge :=
  elim_ne_error nofun

theorem formatOf_ne_tooLarge (v : Value) : formatOf v ≠ .error .numberTooLarge :=
  elim_ne_error nofun

/-- The confidence of a verdict that a document holds is not past the range. -/
theorem confidenceOf_ne_tooLarge {v : Value} (h : v.Storable) :
    confidenceOf v ≠ .error .numberTooLarge := by
  cases v with
  | int n =>
    -- the only kind for which there may be no double, and the bound on the integers rules that out
    obtain ⟨d, hd⟩ := h.exists_ofInt?
    rw [confidenceOf, hd]
    exact nofun
  | str s => exact elim_ne_error nofun
  | bin bs => exact elim_ne_error nofun
  | _ => exact nofun

/-- The parts of a value that a document holds are values that it holds. -/
theorem storable_of_part {pairs : List (Value × Value)} {name : String} {v : Value}
    (h : (Value.map pairs).Storable) (hv : part pairs name = .ok v) : v.Storable := by
  rw [part, elim_eq_ok_iff] at hv
  exact h.field? hv

/-- Of all parts of a verdict only the confidence could be past the range. -/
theorem ofValue_ne_tooLarge {v : Value} (h : v.Storable) : ofValue v ≠ .error .numberTooLarge := by
  cases v with
  | map pairs =>
    -- the parts in the order in which they are looked at
    refine bind_ne_error (part_ne_tooLarge _ _) fun language _ => ?_
    refine bind_ne_error (part_ne_tooLarge _ _) fun stated hstated => ?_
    refine bind_ne_error (confidenceOf_ne_tooLarge (storable_of_part h hstated)) fun _ _ => ?_
    refine bind_ne_error (part_ne_tooLarge _ _) fun listed _ => ?_
    refine bind_ne_error (elementsOf_ne_tooLarge listed) fun candidates _ => ?_
    refine bind_ne_error (part_ne_tooLarge _ _) fun listed _ => ?_
    refine bind_ne_error (elementsOf_ne_tooLarge listed) fun evidence _ => ?_
    refine bind_ne_error (part_ne_tooLarge _ _) fun named _ => ?_
    refine bind_ne_error (formatOf_ne_tooLarge named) fun format _ => ?_
    exact bind_ne_error (part_ne_tooLarge _ _) fun platform _ => nofun
  | _ => exact nofun

end Verdict

namespace Report

theorem keyed_ne_verdict (v : Value) (key : String) (cause : VerdictError) :
    keyed v key ≠ .error (.verdict cause) := by
  cases v with
  | map pairs => exact elim_ne_error nofun
  | _ => exact nofun

/-- What is found under a key is a value that the document holds. -/
theorem storable_of_keyed {v w : Value} {key : String} (h : v.Storable) (hw : keyed v key = .ok w) :
    w.Storable := by
  cases v with
  | map pairs =>
    rw [keyed, elim_eq_ok_iff] at hw
    exact h.field? hw
  | _ => cases hw

/-- An entry that a document holds meets no number past the range. -/
theorem Entry.ofValue_ne_tooLarge {v : Value} (h : v.Storable) :
    Entry.ofValue v ≠ .error (.verdict .numberTooLarge) := by
  refine bind_ne_error (keyed_ne_verdict v _ _) fun path _ => ?_
  refine bind_ne_error (keyed_ne_verdict v _ _) fun result hresult => ?_
  refine bind_ne_error ?_ fun verdict _ => nofun
  intro herror
  obtain ⟨cause, hcause, heq⟩ := mapError_eq_error_iff.mp herror
  cases heq
  exact Verdict.ofValue_ne_tooLarge (storable_of_keyed h hresult) hcause

/-- **The entries of a value that a document holds meet no number past the range.** -/
theorem entriesOf_ne_tooLarge {v : Value} (h : v.Storable) :
    entriesOf v ≠ .error (.verdict .numberTooLarge) := by
  -- the key, what is under it, and then the entries one by one
  refine bind_ne_error (keyed_ne_verdict v _ _) fun listed hlisted => ?_
  refine bind_ne_error (elim_ne_error nofun) fun items hitems => ?_
  intro herror
  obtain ⟨item, hitem, hfailed⟩ := exists_mem_of_mapM_eq_error herror
  -- an entry is an element of a value that the document holds, whatever kind that value is of
  have hstorable := (storable_of_keyed h hlisted).elements? (elim_eq_ok_iff.mp hitems) item hitem
  exact Entry.ofValue_ne_tooLarge hstorable hfailed

/-! ## Refusals -/

theorem mishap_mem_faultsOfBytes (e : DecodeError) : e.mishap ∈ faultsOfBytes := by
  cases e <;> decide

/-- Whatever is met in the entries is taken for a fault of the document, but a number past the
range. -/
theorem mishap_mem_faultsOfEntries {e : EntryError} (h : e ≠ .verdict .numberTooLarge) :
    e.mishap ∈ faultsOfEntries := by
  cases e with
  | missingKey key => exact List.mem_cons_self ..
  | wrongKind kind => exact List.mem_cons_of_mem _ (List.mem_cons_self ..)
  | verdict cause =>
    cases cause with
    | numberTooLarge => exact absurd rfl h
    | _ => simp [EntryError.mishap, VerdictError.mishap, faultsOfEntries]

/-- No failure goes through that is met in a value that a document holds. -/
theorem not_goesThrough_of_ofValue {v : Value} {e : ReadError} (h : v.Storable)
    (he : ofValue v = .error e) : ¬ e.GoesThrough := by
  cases v with
  | map pairs =>
    rw [ofValue] at he
    split at he
    · -- of this version: the failure is met in the entries
      obtain ⟨cause, hcause, rfl⟩ := mapError_eq_error_iff.mp he
      have hne : cause ≠ .verdict .numberTooLarge := by
        rintro rfl
        exact entriesOf_ne_tooLarge h hcause
      exact fun hthrough => hthrough (mishap_mem_faultsOfEntries hne)
    · cases he
      exact id
  | _ =>
    -- no map: this is said at once
    cases he
    exact id

/-- **A document is read or refused.** Whatever its bytes, the reader ends with a list of entries or
with a failure that it takes for a fault of the document; no other failure goes through. -/
theorem read_or_refused (document : Bytes) :
    AnswersOr (fun e => ¬ e.GoesThrough) (read document) := by
  refine answersOr_of_forall fun e he => ?_
  rw [read] at he
  split at he
  · next v hv => exact not_goesThrough_of_ofValue ⟨_, fits_of_decode hv⟩ he
  · next cause _ =>
    cases he
    exact fun hthrough => hthrough (mishap_mem_faultsOfBytes cause)

end Report

end Provenance
