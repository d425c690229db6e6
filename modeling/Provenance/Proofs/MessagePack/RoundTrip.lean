import Provenance.MessagePack.Codec
import Provenance.Proofs.MessagePack.Head

/-!
# Values are read back

A value that fits into a document has a document, and the document is read as that value, with its
texts, lists and pairs as they were and in their order. A value fits if its numbers and sizes are in
range, its texts have bytes, its keys are told apart, and it is not nested too deep.

The induction is on the levels that are left for nested values. What it carries is that the bytes of
a value are taken for it whatever follows them (`Value.SpelledBy`), which is what lets the elements
of a container follow one another without marks between them.

* `Text.Encodable`, `Value.Fits` — the texts and values that have bytes.
* `ItemsSpelledBy`, `PairsSpelledBy` — the same for what is inside a container.

Main results:

* `exists_encodeAt` — a value that fits has bytes, and they are taken for it.
* `decode_of_encode` — a document is read as the value that it was written for.
-/

namespace Provenance

/-- A text is a string of fewer than 2³² bytes. -/
def Text.Encodable (text : Text) : Prop :=
  ∃ s : String, text = Text.ofString s ∧ s.utf8ByteSize < 0x100000000

namespace MessagePack

/-!
## Values that fit

A value can be written when its numbers, texts and lists are not too large, when the keys of its
mappings differ, and when it is not nested too deeply. Depth is counted down, one level for each
layer.
-/

namespace Value

/-- The numbers and sizes of a value are in range, and its elements have a property. -/
def FitsWith (inner : Value → Prop) : Value → Prop
  | nil | bool _ | float _ => True
  | int n => (Head.int n).Fits
  | str s => s.Encodable
  | bin bs => (Head.bin bs.length).Fits
  | array items => (Head.array items.length).Fits ∧ ∀ v ∈ items, inner v
  | map pairs =>
    (Head.map pairs.length).Fits
      ∧ (∀ p ∈ pairs, isKey p.1 = true ∧ inner p.1 ∧ inner p.2)
      ∧ (pairs.map (·.1)).Nodup
  | ext code payload => code < 0x80 ∧ payload.length < 0x100000000
  | timestamp seconds nanoseconds => Word.i64.Fits seconds ∧ nanoseconds < 1000000000

/-- A value fits into a document, with at most `levels` values inside one another. -/
def Fits : (levels : Nat) → Value → Prop
  | 0, _ => False
  | levels + 1, v => v.FitsWith (Fits levels)

/-- The reader takes two keys for the same when they are equal, and can be keys at all. -/
theorem sameKey_iff {a b : Value} : a.sameKey b = true ↔ a = b ∧ isKey a = true := by
  cases a <;> cases b <;> simp [sameKey, isKey]

end Value

/-! ## Parts -/

theorem takes_takeBytes (bs : List UInt8) : Takes (takeBytes bs.length) bs bs :=
  takeBytes_append bs

/-- A payload is taken for what is made of it. -/
theorem takes_readPayload {bs : List UInt8} {make : List UInt8 → Except DecodeError Value}
    {v : Value} (h : make bs = .ok v) : Takes (readPayload bs.length make) bs v := by
  intro rest
  rw [readPayload, takes_takeBytes bs rest]
  simp only [h]

theorem decode_numberBytes {width n : Nat} (h : n < byteSpan width) :
    ByteOrder.big.decode (numberBytes width n) = n := by
  rw [numberBytes, ByteOrder.decode_encode, Nat.mod_eq_of_lt h]

theorem length_numberBytes (width n : Nat) : (numberBytes width n).length = width :=
  ByteOrder.length_encode ..

/-- The longest payload of a timestamp has twelve bytes. -/
theorem length_numberThenSigned (n : Nat) (m : Int) :
    (numberBytes 4 n ++ signedBytes 8 m).length = 12 := by
  rw [List.length_append, signedBytes, length_numberBytes, length_numberBytes]

/-- A point in time is got back from its payload, in each of the three forms. -/
theorem readTimestamp?_timestampPayload {seconds : Int} {nanoseconds : Nat}
    (hseconds : Word.i64.Fits seconds) (hnano : nanoseconds < 1000000000) :
    readTimestamp? (timestampPayload seconds nanoseconds)
      = some (.timestamp seconds nanoseconds) := by
  have hbounds : -(0x10000000000000000 : Int) ≤ 2 * seconds
      ∧ 2 * seconds < 0x10000000000000000 := hseconds
  have hspan4 : byteSpan 4 = 0x100000000 := rfl
  have hspan8 : byteSpan 8 = 0x10000000000000000 := rfl
  have hseconds34 : secondsSpan = 0x400000000 := rfl
  unfold timestampPayload
  by_cases hshort : 0 ≤ seconds ∧ seconds < secondsSpan
  · obtain ⟨n, rfl⟩ := Int.eq_ofNat_of_zero_le hshort.1
    have hn : n < secondsSpan := Int.ofNat_lt.mp hshort.2
    rw [if_pos hshort, Int.toNat_natCast]
    by_cases hwhole : nanoseconds = 0 ∧ (n : Int) < 0x100000000
    · -- four bytes of seconds
      obtain ⟨rfl, hn32⟩ := hwhole
      rw [if_pos ⟨rfl, hn32⟩, readTimestamp?, length_numberBytes]
      simp only
      rw [decode_numberBytes (by omega), timestampOf?, if_pos hnano]
    · -- eight bytes, with the nanoseconds above the seconds
      have hmod : (nanoseconds * secondsSpan + n) % secondsSpan = n := by
        rw [Nat.mul_comm, Nat.mul_add_mod, Nat.mod_eq_of_lt hn]
      have hdiv : (nanoseconds * secondsSpan + n) / secondsSpan = nanoseconds := by
        rw [Nat.mul_comm, Nat.mul_add_div (by omega), Nat.div_eq_of_lt hn, Nat.add_zero]
      have hlt : nanoseconds * secondsSpan + n < byteSpan 8 := by
        rw [hseconds34] at hn ⊢
        omega
      rw [if_neg hwhole, readTimestamp?, length_numberBytes]
      simp only
      rw [decode_numberBytes hlt, hmod, hdiv, timestampOf?, if_pos hnano]
  · -- four bytes of nanoseconds, then eight of seconds
    have hresidue : (seconds % byteSpan 8).toNat < byteSpan 8 := by
      have := Int.emod_lt_of_pos seconds (show (0 : Int) < byteSpan 8 by omega)
      omega
    have htake : (numberBytes 4 nanoseconds ++ signedBytes 8 seconds).take 4
        = numberBytes 4 nanoseconds :=
      List.take_left' (length_numberBytes 4 nanoseconds)
    have hdrop : (numberBytes 4 nanoseconds ++ signedBytes 8 seconds).drop 4
        = signedBytes 8 seconds :=
      List.drop_left' (length_numberBytes 4 nanoseconds)
    rw [if_neg hshort, readTimestamp?, length_numberThenSigned]
    simp only
    rw [htake, hdrop, decode_numberBytes (by omega), signedBytes, decode_numberBytes hresidue]
    show timestampOf? (Word.i64.ofNat (seconds % Word.i64.modulus).toNat) nanoseconds = _
    rw [Word.ofNat_emod hseconds, timestampOf?, if_pos hnano]

/-!
## Elements

The writer puts the elements one behind the other, and the reader takes them off one by one, with
those it has already in its hands.
-/

/-- Some bytes spell a value, where at most `levels` values lie inside one another. -/
structure Value.SpelledBy (levels : Nat) (v : Value) (bs : List UInt8) : Prop where
  /-- There is at least one. -/
  nonempty : bs ≠ []
  /-- They are taken for the value in every document that has room for them. -/
  takes : ∀ {size depth : Nat}, bs.length ≤ size → levels ≤ depth →
    Takes (readValue size depth) bs v

/-- Some bytes spell values, one after the other. -/
structure ItemsSpelledBy (levels : Nat) (items : List Value) (bs : List UInt8) : Prop where
  /-- There is at least one for each value. -/
  enough : items.length ≤ bs.length
  /-- They are taken for the values, behind whatever has been read. -/
  takes : ∀ {size depth : Nat}, bs.length ≤ size → levels ≤ depth → ∀ done,
    Takes (readItems (readValue size depth) done items.length) bs (done.reverse ++ items)

theorem itemsSpelledBy_nil (levels : Nat) : ItemsSpelledBy levels [] [] where
  enough := Nat.le_refl _
  takes := by
    intro size depth _ _ done rest
    rw [List.append_nil]
    rfl

/-- The bytes of a value and those of further values spell all of them. -/
theorem ItemsSpelledBy.cons {levels : Nat} {v : Value} {items : List Value} {b bs : List UInt8}
    (hv : v.SpelledBy levels b) (hitems : ItemsSpelledBy levels items bs) :
    ItemsSpelledBy levels (v :: items) (b ++ bs) where
  enough := by
    have hb := List.length_pos_iff.mpr hv.nonempty
    have henough := hitems.enough
    rw [List.length_cons, List.length_append]
    omega
  takes := by
    intro size depth hsize hdepth done rest
    -- the first value is read with the others as what follows it, and joins what has been read
    rw [List.length_append] at hsize
    rw [List.length_cons, List.append_assoc, readItems, hv.takes (by omega) hdepth]
    simp only
    rw [hitems.takes (by omega) hdepth (v :: done) rest, List.reverse_cons, List.append_assoc]
    rfl

/-- A pair with a new key is put in front of the others. -/
theorem putPair_of_not_mem {done : List (Value × Value)} {key : Value} (value : Value)
    (h : key ∉ done.map (·.1)) : putPair done key value = (key, value) :: done := by
  rw [putPair, if_neg]
  intro hany
  obtain ⟨p, hp, hsame⟩ := List.any_eq_true.mp hany
  have hkey := (Value.sameKey_iff.mp hsame).1
  exact h (hkey ▸ List.mem_map_of_mem hp)

/-- Some bytes spell pairs, one after the other. -/
structure PairsSpelledBy (levels : Nat) (pairs : List (Value × Value)) (bs : List UInt8) :
    Prop where
  /-- There are at least two for each pair. -/
  enough : 2 * pairs.length ≤ bs.length
  /-- They are taken for the pairs, behind whatever has been read under other keys. -/
  takes : ∀ {size depth : Nat}, bs.length ≤ size → levels ≤ depth → ∀ done,
    ((done.reverse ++ pairs).map (·.1)).Nodup →
      Takes (readPairs (readValue size depth) done pairs.length) bs (done.reverse ++ pairs)

theorem pairsSpelledBy_nil (levels : Nat) : PairsSpelledBy levels [] [] where
  enough := Nat.le_refl _
  takes := by
    intro size depth _ _ done _ rest
    rw [List.append_nil]
    rfl

/-- The bytes of a pair with a key of its own and those of further pairs spell all of them. -/
theorem PairsSpelledBy.cons {levels : Nat} {key value : Value} {pairs : List (Value × Value)}
    {k b bs : List UInt8} (hkey : isKey key = true) (hk : key.SpelledBy levels k)
    (hv : value.SpelledBy levels b) (hpairs : PairsSpelledBy levels pairs bs) :
    PairsSpelledBy levels ((key, value) :: pairs) (k ++ b ++ bs) where
  enough := by
    have hkpos := List.length_pos_iff.mpr hk.nonempty
    have hbpos := List.length_pos_iff.mpr hv.nonempty
    have henough := hpairs.enough
    rw [List.length_cons, List.length_append, List.length_append]
    omega
  takes := by
    -- the new key differs from the later ones too, which is what the run behind it needs
    intro size depth hsize hdepth done hnodup rest
    rw [List.length_append, List.length_append] at hsize
    -- no pair gives way to the new one, since its key is not among those that have been read
    have hnew : key ∉ done.map (·.1) := by
      rw [List.map_append, List.nodup_append, List.map_reverse] at hnodup
      intro hmem
      exact hnodup.2.2 key (List.mem_reverse.mpr hmem) key (List.mem_cons_self ..) rfl
    have hmove : ((key, value) :: done).reverse ++ pairs
        = done.reverse ++ (key, value) :: pairs := by
      rw [List.reverse_cons, List.append_assoc]
      rfl
    rw [List.length_cons, List.append_assoc, List.append_assoc, readPairs,
      hk.takes (by omega) hdepth]
    simp only
    rw [hv.takes (by omega) hdepth]
    simp only
    rw [if_pos hkey, putPair_of_not_mem value hnew, ← hmove]
    exact hpairs.takes (by omega) hdepth _ (hmove ▸ hnodup) rest

/-! ## Values -/

section Writing

variable {levels : Nat} {inner : Value → Except EncodeError (List UInt8)}

/-- Values of which each has bytes have bytes together. -/
theorem exists_encode_items (items : List Value)
    (h : ∀ v ∈ items, ∃ bs, inner v = .ok bs ∧ v.SpelledBy levels bs) :
    ∃ bodies, items.mapM inner = .ok bodies ∧ ItemsSpelledBy levels items bodies.flatten := by
  -- the induction is on the list; the inner writer is the same for every element
  induction items with
  | nil => exact ⟨[], rfl, itemsSpelledBy_nil levels⟩
  | cons v items ih =>
    obtain ⟨b, hb, hv⟩ := h v (List.mem_cons_self ..)
    obtain ⟨bodies, hbodies, hitems⟩ := ih fun w hw => h w (List.mem_cons_of_mem _ hw)
    refine ⟨b :: bodies, ?_, hitems.cons hv⟩
    rw [List.mapM_cons, hb, hbodies]
    rfl

/-- Pairs of which each has bytes for its key and its value have bytes together. -/
theorem exists_encode_pairs (pairs : List (Value × Value))
    (hkeys : ∀ p ∈ pairs, isKey p.1 = true)
    (h : ∀ p ∈ pairs, (∃ bs, inner p.1 = .ok bs ∧ p.1.SpelledBy levels bs)
      ∧ ∃ bs, inner p.2 = .ok bs ∧ p.2.SpelledBy levels bs) :
    ∃ bodies,
      (pairs.mapM fun (key, value) => do
        let k ← inner key
        return k ++ (← inner value)) = .ok bodies
        ∧ PairsSpelledBy levels pairs bodies.flatten := by
  induction pairs with
  | nil => exact ⟨[], rfl, pairsSpelledBy_nil levels⟩
  | cons p pairs ih =>
    obtain ⟨key, value⟩ := p
    obtain ⟨⟨k, hk, hkey⟩, b, hb, hvalue⟩ := h _ (List.mem_cons_self ..)
    -- a key is followed by its value, so that the pair is written as the one behind the other
    have hbody : (do
        let k ← inner key
        return k ++ (← inner value)) = Except.ok (k ++ b) := by
      rw [show inner key = .ok k from hk, show inner value = .ok b from hb]
      rfl
    obtain ⟨bodies, hbodies, hpairs⟩ := ih (fun p hp => hkeys p (List.mem_cons_of_mem _ hp))
      fun p hp => h p (List.mem_cons_of_mem _ hp)
    refine ⟨(k ++ b) :: bodies, ?_, hpairs.cons (hkeys _ (List.mem_cons_self ..)) hkey hvalue⟩
    rw [List.mapM_cons, hbodies]
    simp only
    rw [hbody]
    rfl

/-- A value is spelled by its head and what is taken behind the head, which may use the levels that
are left. -/
theorem spelledBy_of_head {head : Head} {h body : List UInt8} {v : Value}
    (hhead : head.SpelledBy h)
    (hbody : ∀ {size depth : Nat}, body.length ≤ size → levels ≤ depth →
      Takes (readBody size (some (readValue size depth)) head) body v) :
    v.SpelledBy (levels + 1) (h ++ body) where
  nonempty := by
    intro hnil
    exact hhead.nonempty (List.append_eq_nil_iff.mp hnil).1
  takes := by
    intro size depth hsize hdepth rest
    rw [List.length_append] at hsize
    cases depth with
    | zero => omega
    | succ depth =>
      -- a level is spent on the value, whether it is a container or not
      rw [readValue, readWith, List.append_assoc, hhead.takes]
      exact hbody (by omega) (by omega) rest

/-- A value that is all head. -/
theorem spelledBy_head {head : Head} {h : List UInt8} {v : Value} (hhead : head.SpelledBy h)
    (hbody : ∀ size inner? rest, readBody size inner? head rest = .ok (v, rest)) :
    v.SpelledBy (levels + 1) h := by
  have hspelled : v.SpelledBy (levels + 1) (h ++ []) :=
    spelledBy_of_head hhead fun _ _ rest => hbody _ _ rest
  rwa [List.append_nil] at hspelled

/-- A head that fits and bytes that are taken behind it make up a value. -/
theorem exists_headThen {head : Head} {body : List UInt8} {v : Value} (hfits : head.Fits)
    (hbody : ∀ size inner?, Takes (readBody size inner? head) body v) :
    ∃ bs, headThen head body = .ok bs ∧ v.SpelledBy (levels + 1) bs := by
  obtain ⟨h, hh, hhead⟩ := Head.exists_encode hfits
  refine ⟨h ++ body, ?_, spelledBy_of_head hhead fun _ _ => hbody _ _⟩
  rw [headThen, hh]
  rfl

/-- A text has bytes if it can be encoded. -/
theorem exists_encode_str {s : Text} (h : s.Encodable) :
    ∃ bs, encodeWith inner (.str s) = .ok bs ∧ (Value.str s).SpelledBy (levels + 1) bs := by
  obtain ⟨t, rfl, hsize⟩ := h
  simp only [encodeWith, Text.toString?_ofString]
  refine exists_headThen hsize fun size inner? => ?_
  exact takes_readPayload (readText_toUTF8 t)

/-- An array has bytes if its elements have. -/
theorem exists_encode_array {items : List Value} (hcount : (Head.array items.length).Fits)
    (h : ∀ v ∈ items, ∃ bs, inner v = .ok bs ∧ v.SpelledBy levels bs) :
    ∃ bs, encodeWith inner (.array items) = .ok bs
      ∧ (Value.array items).SpelledBy (levels + 1) bs := by
  obtain ⟨hd, hhd, hhead⟩ := Head.exists_encode hcount
  obtain ⟨bodies, hbodies, hitems⟩ := exists_encode_items items h
  refine ⟨hd ++ bodies.flatten, ?_, spelledBy_of_head hhead ?_⟩
  · rw [encodeWith, hhd, hbodies]
    rfl
  · intro size depth hsize hdepth rest
    -- a document that holds the elements is not too small for their number
    have henough := hitems.enough
    rw [readBody, readContainer, if_neg (by omega), hitems.takes hsize hdepth [] rest]
    rfl

/-- A map has bytes if its keys and values have, and its keys are told apart. -/
theorem exists_encode_map {pairs : List (Value × Value)} (hcount : (Head.map pairs.length).Fits)
    (hkeys : ∀ p ∈ pairs, isKey p.1 = true) (hnodup : (pairs.map (·.1)).Nodup)
    (h : ∀ p ∈ pairs, (∃ bs, inner p.1 = .ok bs ∧ p.1.SpelledBy levels bs)
      ∧ ∃ bs, inner p.2 = .ok bs ∧ p.2.SpelledBy levels bs) :
    ∃ bs, encodeWith inner (.map pairs) = .ok bs
      ∧ (Value.map pairs).SpelledBy (levels + 1) bs := by
  obtain ⟨hd, hhd, hhead⟩ := Head.exists_encode hcount
  obtain ⟨bodies, hbodies, hpairs⟩ := exists_encode_pairs pairs hkeys h
  refine ⟨hd ++ bodies.flatten, ?_, spelledBy_of_head hhead ?_⟩
  · rw [encodeWith, hhd, hbodies]
    rfl
  · intro size depth hsize hdepth rest
    -- the reader wants room for two bytes for each pair
    have henough := hpairs.enough
    rw [readBody, readContainer, if_neg (by omega), hpairs.takes hsize hdepth [] hnodup rest]
    rfl

/-- The payload of an extension is taken for it. -/
theorem takes_readExt {code : Int} {payload : List UInt8} {v : Value}
    (h : readExt? code payload = some v) {size : Nat} {inner? : Option (Reader Value)} :
    Takes (readBody size inner? (.ext code payload.length)) payload v := by
  have hmake : (readExt? code payload).elim (Except.error DecodeError.unsupportedExtension) .ok
      = .ok v := by
    rw [h]
    rfl
  show Takes (readPayload payload.length fun bs =>
    (readExt? code bs).elim (.error .unsupportedExtension) .ok) payload v
  exact takes_readPayload hmake

/-- An extension has bytes if its code and its size are in range. -/
theorem exists_encode_ext {code : Nat} {payload : List UInt8} (hcode : code < 0x80)
    (hsize : payload.length < 0x100000000) :
    ∃ bs, encodeWith inner (.ext code payload) = .ok bs
      ∧ (Value.ext code payload).SpelledBy (levels + 1) bs := by
  have hfits : (Head.ext code payload.length).Fits := ⟨by omega, hsize⟩
  -- only the code -1 stands for a timestamp, and the code here is not negative
  have hread : readExt? code payload = some (.ext code payload) := by
    rw [readExt?, timestampCode, if_neg (by omega), if_neg (by omega), Int.toNat_natCast]
  exact exists_headThen hfits fun _ _ => takes_readExt hread

/-- A timestamp has bytes if its seconds fit and its nanoseconds are below a second. -/
theorem exists_encode_timestamp {seconds : Int} {nanoseconds : Nat}
    (hseconds : Word.i64.Fits seconds) (hnano : nanoseconds < 1000000000) :
    ∃ bs, encodeWith inner (.timestamp seconds nanoseconds) = .ok bs
      ∧ (Value.timestamp seconds nanoseconds).SpelledBy (levels + 1) bs := by
  -- none of the three forms is longer than twelve bytes
  have hlength : (timestampPayload seconds nanoseconds).length ≤ 12 := by
    unfold timestampPayload
    split
    · split
      · rw [length_numberBytes]
        decide
      · rw [length_numberBytes]
        decide
    · exact Nat.le_of_eq (length_numberThenSigned nanoseconds seconds)
  have hfits : (Head.ext timestampCode (timestampPayload seconds nanoseconds).length).Fits :=
    ⟨by decide, by omega⟩
  rw [encodeWith, if_pos hseconds]
  have hread : readExt? timestampCode (timestampPayload seconds nanoseconds)
      = some (.timestamp seconds nanoseconds) := by
    rw [readExt?, if_pos rfl, readTimestamp?_timestampPayload hseconds hnano]
  exact exists_headThen hfits fun _ _ => takes_readExt hread

/-- One level: if the elements have bytes that are taken for them, so has the value. -/
theorem exists_encodeWith
    (hinner : ∀ v : Value, v.Fits levels → ∃ bs, inner v = .ok bs ∧ v.SpelledBy levels bs)
    {v : Value} (h : v.FitsWith (Value.Fits levels)) :
    ∃ bs, encodeWith inner v = .ok bs ∧ v.SpelledBy (levels + 1) bs := by
  have hhead : ∀ head : Head, head.Fits →
      (∀ size inner? rest, readBody size inner? head rest = .ok (v, rest)) →
      ∃ bs, head.encode = .ok bs ∧ v.SpelledBy (levels + 1) bs := by
    intro head hfits hbody
    obtain ⟨bs, hbs, hspelled⟩ := Head.exists_encode hfits
    exact ⟨bs, hbs, spelledBy_head hspelled hbody⟩
  -- a value that is all head, one with a payload, or one with elements
  cases v with
  | nil => exact hhead .nil trivial fun _ _ _ => rfl
  | bool b => exact hhead (.bool b) trivial fun _ _ _ => rfl
  | int n => exact hhead (.int n) h fun _ _ _ => rfl
  | float d => exact hhead (.float d) trivial fun _ _ _ => rfl
  | str s => exact exists_encode_str h
  | bin bs =>
    refine exists_headThen h fun size inner? => ?_
    show Takes (readPayload bs.length fun bs => .ok (.bin bs)) bs (.bin bs)
    exact takes_readPayload rfl
  | array items => exact exists_encode_array h.1 fun v hv => hinner v (h.2 v hv)
  | map pairs =>
    obtain ⟨hcount, hparts, hnodup⟩ := h
    exact exists_encode_map hcount (fun p hp => (hparts p hp).1) hnodup
      fun p hp => ⟨hinner _ (hparts p hp).2.1, hinner _ (hparts p hp).2.2⟩
  | ext code payload => exact exists_encode_ext h.1 h.2
  | timestamp seconds nanoseconds => exact exists_encode_timestamp h.1 h.2

end Writing

/-- **A value that fits has bytes, and they are taken for it**, whatever follows them. -/
theorem exists_encodeAt (levels : Nat) {v : Value} (h : v.Fits levels) :
    ∃ bs, encodeAt levels v = .ok bs ∧ v.SpelledBy levels bs := by
  -- on the levels: the elements of a value have one level less than the value
  induction levels generalizing v with
  | zero => exact h.elim
  | succ levels ih => exact exists_encodeWith (fun v hv => ih hv) h

/-- **A document is read as the value that it was written for.** -/
theorem decode_of_encode {v : Value} (h : v.Fits encodeLevels) :
    ∃ document, encode v = .ok document ∧ decode document.toArray = .ok v := by
  obtain ⟨document, hdocument, hspelled⟩ := exists_encodeAt encodeLevels h
  refine ⟨document, hdocument, ?_⟩
  -- a document may be nested deeper than what is written
  have hread : readValue document.length decodeLevels (document ++ []) = .ok (v, []) :=
    hspelled.takes (Nat.le_refl _) (by decide) []
  rw [List.append_nil] at hread
  rw [decode, List.size_toArray, List.toList_toArray, hread]

end MessagePack

end Provenance
