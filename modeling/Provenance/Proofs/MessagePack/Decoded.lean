import Provenance.Proofs.MessagePack.RoundTrip

/-!
# What was read fits

Whatever bytes a document is made of, the value that is read from it is one that a document could
have been written for: its integers have 64 bits, its texts are strings, its keys are told apart,
and it is nested no deeper than a reader goes. No more is known of a value from outside, and this is
what those who look into it can rely on.

Main results:

* `fits_of_readValue` — a value that was read fits.
* `fits_of_decode` — so does the value of a document.
-/

namespace Provenance.MessagePack

/-! ## Payloads -/

theorem length_of_takeBytes {count : Nat} {bs payload rest : List UInt8}
    (h : takeBytes count bs = .ok (payload, rest)) : payload.length = count :=
  (append_of_takeBytes h).1

/-- What a payload was made into, and how long it was. -/
theorem exists_payload {size : Nat} {make : List UInt8 → Except DecodeError Value} {v : Value}
    {bs rest : List UInt8} (h : readPayload size make bs = .ok (v, rest)) :
    ∃ payload, payload.length = size ∧ make payload = .ok v := by
  -- the payload was there, and something was made of it
  unfold readPayload at h
  split at h
  · cases h
  · next payload rest' hpayload =>
    split at h
    · next w hw =>
      cases h
      exact ⟨payload, length_of_takeBytes hpayload, hw⟩
    · cases h

/-- Text that was read is text that can be written: it is well-formed, and not too long. -/
theorem encodable_of_readText {bs : List UInt8} {v : Value} (hsize : bs.length < 0x100000000)
    (h : readText bs = .ok v) : ∃ s : Text, v = .str s ∧ s.Encodable := by
  unfold readText String.fromUTF8? at h
  split at h
  · next t ht =>
    cases h
    refine ⟨t, rfl, t, rfl, ?_⟩
    -- the bytes of the string are those that were read
    split at ht
    · cases ht
      exact hsize
    · cases ht
  · cases h

/-- A timestamp that was read fits: its nanoseconds were checked, and its seconds have a sign. -/
theorem fits_of_readTimestamp? {payload : List UInt8} {v : Value}
    (h : readTimestamp? payload = some v) (inner : Value → Prop) : v.FitsWith inner := by
  have hof : ∀ {seconds : Int} {nanoseconds : Nat}, Word.i64.Fits seconds →
      timestampOf? seconds nanoseconds = some v → v.FitsWith inner := by
    intro seconds nanoseconds hseconds hv
    unfold timestampOf? at hv
    split at hv
    · next hnano =>
      cases hv
      exact ⟨hseconds, hnano⟩
    · cases hv
  have hnatural : ∀ n : Nat, n < 0x400000000 → Word.i64.Fits n := by
    intro n hn
    show -(0x10000000000000000 : Int) ≤ 2 * n ∧ 2 * (n : Int) < 0x10000000000000000
    omega
  have hlt := ByteOrder.big.decode_lt payload
  unfold readTimestamp? at h
  -- the three forms differ in the bytes that they give to the seconds and to the nanoseconds
  split at h
  · next hlength =>
    rw [hlength] at hlt
    have hspan : byteSpan 4 = 0x100000000 := rfl
    exact hof (hnatural (ByteOrder.big.decode payload) (by omega)) h
  · exact hof (hnatural _ (Nat.mod_lt _ (by decide))) h
  · next hlength =>
    -- the last eight bytes are a word of their own
    have hrest := ByteOrder.big.decode_lt (payload.drop 4)
    have hdrop : (payload.drop 4).length = 8 := by rw [List.length_drop, hlength]
    rw [hdrop] at hrest
    exact hof (Word.fits_ofNat hrest).1 h
  · cases h

/-- An extension that was read fits: it is a timestamp, or its code and its size are in range. -/
theorem fits_of_readExt? {code : Int} {payload : List UInt8} {v : Value}
    (hcode : code < 0x80) (hsize : payload.length < 0x100000000)
    (h : readExt? code payload = some v) (inner : Value → Prop) : v.FitsWith inner := by
  unfold readExt? at h
  split at h
  · exact fits_of_readTimestamp? h inner
  split at h
  · cases h
  · cases h
    exact ⟨by omega, hsize⟩

/-!
## Elements

A reader of one level gets what it is known to get at the level below, element by element.
-/

/-- A reader only gets things with a property. -/
def Gets {α : Type} (P : α → Prop) (read : Reader α) : Prop :=
  ∀ {bs rest : List UInt8} {a : α}, read bs = .ok (a, rest) → P a

section Elements

variable {P : Value → Prop} {inner : Reader Value}

/-- As many elements are read as were announced, and all of them have the property. -/
theorem length_and_forall_of_readItems (hinner : Gets P inner) {count : Nat} {done vs : List Value}
    {bs rest : List UInt8} (hdone : ∀ v ∈ done, P v)
    (h : readItems inner done count bs = .ok (vs, rest)) :
    vs.length = done.length + count ∧ ∀ v ∈ vs, P v := by
  -- what has been read so far is in `done`, and has the property as well
  induction count generalizing done bs with
  | zero =>
    cases h
    exact ⟨List.length_reverse, fun v hv => hdone v (List.mem_reverse.mp hv)⟩
  | succ count ih =>
    rw [readItems] at h
    split at h
    · next v rest' hv =>
      have hmore : ∀ w ∈ v :: done, P w := by
        intro w hw
        rcases List.mem_cons.mp hw with rfl | hw
        · exact hinner hv
        · exact hdone w hw
      obtain ⟨hlength, hall⟩ := ih hmore h
      rw [List.length_cons] at hlength
      exact ⟨by omega, hall⟩
    · cases h

/-- The pairs of a map that is being read: their keys are keys and told apart, and no more of them
than were read. -/
structure PairsFit (P : Value → Prop) (count : Nat) (pairs : List (Value × Value)) : Prop where
  length_le : pairs.length ≤ count
  forall_mem : ∀ p ∈ pairs, isKey p.1 = true ∧ P p.1 ∧ P p.2
  nodup : (pairs.map (·.1)).Nodup

/-- The pairs are read last one first, which matters for none of the three. -/
theorem PairsFit.reverse {count : Nat} {pairs : List (Value × Value)} (h : PairsFit P count pairs) :
    PairsFit P count pairs.reverse where
  length_le := by
    rw [List.length_reverse]
    exact h.length_le
  forall_mem p hp := h.forall_mem p (List.mem_reverse.mp hp)
  nodup := by
    rw [List.map_reverse]
    exact (List.reverse_perm _).nodup_iff.mpr h.nodup

/-- A pair gives way to one with the same key, so that the keys stay as they are, or it is new. -/
theorem PairsFit.putPair {count : Nat} {pairs : List (Value × Value)} {key value : Value}
    (h : PairsFit P count pairs) (hkey : isKey key = true) (hk : P key) (hv : P value) :
    PairsFit P (count + 1) (putPair pairs key value) := by
  have hlength := h.length_le
  unfold MessagePack.putPair
  by_cases hany : pairs.any (fun p => p.1.sameKey key) = true
  · -- the key is there: the pair gives way at its place
    -- no key changes: a pair that gives way has the key already
    rw [if_pos hany]
    have hkeys : (pairs.map fun p => if p.1.sameKey key then (key, value) else p).map (·.1)
        = pairs.map (·.1) := by
      rw [List.map_map]
      refine List.map_congr_left fun p _ => ?_
      by_cases hsame : p.1.sameKey key = true
      · show (if p.1.sameKey key then (key, value) else p).1 = p.1
        rw [if_pos hsame]
        exact (Value.sameKey_iff.mp hsame).1.symm
      · show (if p.1.sameKey key then (key, value) else p).1 = p.1
        rw [if_neg hsame]
    refine ⟨by rw [List.length_map]; omega, ?_, hkeys ▸ h.nodup⟩
    intro q hq
    obtain ⟨p, hp, rfl⟩ := List.mem_map.mp hq
    by_cases hsame : p.1.sameKey key = true
    · rw [if_pos hsame]
      exact ⟨hkey, hk, hv⟩
    · rw [if_neg hsame]
      exact h.forall_mem p hp
  · -- the key is new
    rw [if_neg hany]
    have hnew : key ∉ pairs.map (·.1) := by
      intro hmem
      obtain ⟨p, hp, hpkey⟩ := List.mem_map.mp hmem
      have hsame : p.1.sameKey key = true := Value.sameKey_iff.mpr ⟨hpkey, hpkey ▸ hkey⟩
      exact hany (List.any_eq_true.mpr ⟨p, hp, hsame⟩)
    refine ⟨by rw [List.length_cons]; omega, ?_, List.nodup_cons.mpr ⟨hnew, h.nodup⟩⟩
    intro q hq
    rcases List.mem_cons.mp hq with rfl | hq
    · exact ⟨hkey, hk, hv⟩
    · exact h.forall_mem q hq

/-- Pairs that are read are told apart by their keys, and no more than were announced. -/
theorem pairsFit_of_readPairs (hinner : Gets P inner) {count read : Nat}
    {done pairs : List (Value × Value)} {bs rest : List UInt8} (hdone : PairsFit P read done)
    (h : readPairs inner done count bs = .ok (pairs, rest)) : PairsFit P (read + count) pairs := by
  -- each pair is put among those read before it, which fit
  induction count generalizing done bs read with
  | zero =>
    cases h
    exact hdone.reverse
  | succ count ih =>
    rw [readPairs] at h
    split at h
    · cases h
    · next key afterKey hkey =>
      split at h
      · cases h
      · next value rest' hvalue =>
        split at h
        · next hiskey =>
          -- a key that can be none is refused before the pair is put anywhere
          have hmore := ih (hdone.putPair hiskey (hinner hkey) (hinner hvalue)) h
          rwa [Nat.add_right_comm] at hmore
        · cases h

end Elements

/-! ## Values -/

/-- A container that was read had a level left, and was made from what was read at that level. -/
theorem exists_of_readContainer {α : Type} {inner? : Option (Reader Value)} {count most : Nat}
    {read : Reader Value → Nat → Reader α} {make : α → Value} {v : Value} {bs rest : List UInt8}
    (h : readContainer inner? count most read make bs = .ok (v, rest)) :
    ∃ inner a, inner? = some inner ∧ read inner count bs = .ok (a, rest) ∧ v = make a := by
  unfold readContainer at h
  split at h
  · cases h
  · next inner =>
    split at h
    · cases h
    split at h
    · next a rest' ha =>
      cases h
      exact ⟨inner, a, rfl, ha, rfl⟩
    · cases h

/-- One level: if elements that are read have a property, a value that is read fits up to it. -/
theorem fitsWith_of_readWith {size : Nat} {inner? : Option (Reader Value)} {P : Value → Prop}
    (hinner : ∀ inner, inner? = some inner → Gets P inner) :
    Gets (Value.FitsWith P) (readWith size inner?) := by
  intro bs rest v h
  unfold readWith at h
  split at h
  · next head body hhead =>
    -- all bounds come from the head, and what is inside from the levels below
    have hfits := Head.fits_of_read hhead
    cases head with
    | nil =>
      cases h
      trivial
    | bool b =>
      cases h
      trivial
    | int n =>
      cases h
      exact hfits
    | float d =>
      cases h
      trivial
    | str length =>
      obtain ⟨payload, rfl, hv⟩ := exists_payload h
      obtain ⟨s, rfl, hs⟩ := encodable_of_readText hfits hv
      exact hs
    | bin length =>
      have hpayload : readPayload length (fun bs => .ok (.bin bs)) body = .ok (v, rest) := h
      obtain ⟨payload, rfl, hv⟩ := exists_payload hpayload
      cases hv
      exact hfits
    | array count =>
      obtain ⟨inner, items, hsome, hitems, rfl⟩ := exists_of_readContainer h
      have hempty : ∀ v ∈ ([] : List Value), P v := nofun
      obtain ⟨hlength, hall⟩ := length_and_forall_of_readItems (hinner inner hsome) hempty hitems
      rw [List.length_nil, Nat.zero_add] at hlength
      exact ⟨hlength ▸ hfits, hall⟩
    | map count =>
      obtain ⟨inner, pairs, hsome, hpairs, rfl⟩ := exists_of_readContainer h
      have hempty : PairsFit P 0 [] := ⟨Nat.le_refl _, nofun, List.nodup_nil⟩
      have hfit := pairsFit_of_readPairs (hinner inner hsome) hempty hpairs
      have hlength := hfit.length_le
      rw [Nat.zero_add] at hlength
      exact ⟨Nat.lt_of_le_of_lt hlength hfits, hfit.forall_mem, hfit.nodup⟩
    | ext code length =>
      obtain ⟨payload, rfl, hv⟩ := exists_payload h
      cases hext : readExt? code payload with
      | none =>
        rw [hext] at hv
        cases hv
      | some w =>
        rw [hext] at hv
        cases hv
        exact fits_of_readExt? hfits.1.2 hfits.2 hext P
  · cases h

/-- **A value that was read fits**, with one level more than there were levels for containers. -/
theorem fits_of_readValue (size depth : Nat) :
    Gets (Value.Fits (depth + 1)) (readValue size depth) := by
  -- the elements of a container were read with one level less
  induction depth with
  | zero =>
    -- no container is read without a level for it
    refine fitsWith_of_readWith ?_
    intro inner hinner
    cases hinner
  | succ depth ih =>
    refine fitsWith_of_readWith ?_
    intro inner hinner
    cases hinner
    exact ih

/-- **The value of a document fits.** -/
theorem fits_of_decode {document : Bytes} {v : Value} (h : decode document = .ok v) :
    v.Fits (decodeLevels + 1) := by
  unfold decode at h
  split at h
  · cases h
  · next w hread =>
    cases h
    exact fits_of_readValue document.size decodeLevels hread
  · cases h

end Provenance.MessagePack
