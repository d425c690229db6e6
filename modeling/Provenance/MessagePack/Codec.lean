import Provenance.Bytes
import Provenance.MessagePack.Head
import Provenance.MessagePack.Value

/-!
# MessagePack documents

* `encode` — the bytes of a value. Values lie inside one another at most 512 deep, and the outermost
  counts.
* `decode` — the value that some bytes spell, with nothing after it. Containers lie inside one
  another at most 1024 deep; the keys of a map are texts or byte strings, and of several pairs with
  one key the last value counts, at the place of the first.
-/

namespace Provenance.MessagePack

/-! ## Points in time -/

/-- How many seconds the form of 8 bytes can tell apart. -/
def secondsSpan : Nat := 0x400000000

/-- The payload of a point in time: 4 bytes of seconds where they suffice, 8 bytes with 30 bits of
nanoseconds and 34 of seconds, or 12 bytes of both. -/
def timestampPayload (seconds : Int) (nanoseconds : Nat) : List UInt8 :=
  if 0 ≤ seconds ∧ seconds < secondsSpan then
    if nanoseconds = 0 ∧ seconds < 0x100000000 then numberBytes 4 seconds.toNat
    else numberBytes 8 (nanoseconds * secondsSpan + seconds.toNat)
  else numberBytes 4 nanoseconds ++ signedBytes 8 seconds

/-- A point in time with less than a second of nanoseconds. -/
def timestampOf? (seconds : Int) (nanoseconds : Nat) : Option Value :=
  if nanoseconds < 1000000000 then some (.timestamp seconds nanoseconds) else none

/-- The point in time of a payload. -/
def readTimestamp? (payload : List UInt8) : Option Value :=
  let big (bs : List UInt8) : Nat := ByteOrder.big.decode bs
  match payload.length with
  | 4 => timestampOf? (big payload) 0
  | 8 => timestampOf? (big payload % secondsSpan : Nat) (big payload / secondsSpan)
  | 12 => timestampOf? (Word.i64.ofNat (big (payload.drop 4))) (big (payload.take 4))
  | _ => none

/-- The kind of extension that holds points in time. -/
def timestampCode : Int := -1

/-- The value of an extension. -/
def readExt? (code : Int) (payload : List UInt8) : Option Value :=
  if code = timestampCode then readTimestamp? payload
  else if code < 0 then none
  else some (.ext code.toNat payload)

/-! ## Writing -/

/-- How many values may lie inside one another when written. -/
def encodeLevels : Nat := 512

/-- A head with the bytes that follow it. -/
def headThen (head : Head) (body : List UInt8) : Except EncodeError (List UInt8) := do
  return (← head.encode) ++ body

/-- The bytes of a value whose elements are written by `inner`. -/
def encodeWith (inner : Value → Except EncodeError (List UInt8)) :
    Value → Except EncodeError (List UInt8)
  | .nil => Head.nil.encode
  | .bool b => (Head.bool b).encode
  | .int n => (Head.int n).encode
  | .float d => (Head.float d).encode
  | .str s =>
    match s.toString? with
    | none => .error .malformedText
    | some whole =>
      let bs := whole.toUTF8.data.toList
      headThen (.str bs.length) bs
  | .bin bs => headThen (.bin bs.length) bs
  | .array items => do
    let head ← (Head.array items.length).encode
    return head ++ (← items.mapM inner).flatten
  | .map pairs => do
    let head ← (Head.map pairs.length).encode
    let bodies ← pairs.mapM fun (key, value) => do
      let k ← inner key
      return k ++ (← inner value)
    return head ++ bodies.flatten
  | .ext code payload => headThen (.ext code payload.length) payload
  | .timestamp seconds nanoseconds =>
    if Word.i64.Fits seconds then
      let payload := timestampPayload seconds nanoseconds
      headThen (.ext timestampCode payload.length) payload
    else .error .outOfRange

/-- The bytes of a value with at most `levels` values inside one another. -/
def encodeAt : (levels : Nat) → Value → Except EncodeError (List UInt8)
  | 0, _ => .error .tooDeep
  | levels + 1, v => encodeWith (encodeAt levels) v

/-- The bytes of a value. -/
def encode (v : Value) : Except EncodeError (List UInt8) := encodeAt encodeLevels v

/-! ## Reading -/

/-- How many containers may lie inside one another when read. -/
def decodeLevels : Nat := 1024

/-- So many values, after those in `done`, which are in reverse. -/
def readItems (inner : Reader Value) (done : List Value) : Nat → Reader (List Value)
  | 0, bs => .ok (done.reverse, bs)
  | count + 1, bs =>
    match inner bs with
    | .ok (v, rest) => readItems inner (v :: done) count rest
    | .error e => .error e

/-- A map with one more pair; a pair with the same key gives way at its place. -/
def putPair (pairs : List (Value × Value)) (key value : Value) : List (Value × Value) :=
  if pairs.any fun p => p.1.sameKey key then
    pairs.map fun p => if p.1.sameKey key then (key, value) else p
  else (key, value) :: pairs

/-- Whether a value can be a key. -/
def isKey : Value → Bool
  | .str _ | .bin _ => true
  | _ => false

/-- So many pairs, after those in `done`, which are in reverse. -/
def readPairs (inner : Reader Value) (done : List (Value × Value)) :
    Nat → Reader (List (Value × Value))
  | 0, bs => .ok (done.reverse, bs)
  | count + 1, bs =>
    match inner bs with
    | .error e => .error e
    | .ok (key, afterKey) =>
      match inner afterKey with
      | .error e => .error e
      | .ok (value, rest) =>
        if isKey key then readPairs inner (putPair done key value) count rest
        else .error .unsupportedKey

/-- The text of some bytes. -/
def readText (bs : List UInt8) : Except DecodeError Value :=
  match String.fromUTF8? ⟨bs.toArray⟩ with
  | some s => .ok (.str s)
  | none => .error .malformedText

/-- A text is read back from its bytes. -/
theorem readText_toUTF8 (s : String) : readText s.toUTF8.data.toList = .ok (.str s) := by
  have h : String.fromUTF8? ⟨s.toUTF8.data.toList.toArray⟩ = some s := by
    rw [Array.toArray_toList]
    exact dif_pos s.isValidUTF8
  rw [readText, h]

/-- A value made from so many bytes. -/
def readPayload (size : Nat) (make : List UInt8 → Except DecodeError Value) : Reader Value :=
  fun bs =>
    match takeBytes size bs with
    | .error e => .error e
    | .ok (payload, rest) =>
      match make payload with
      | .ok v => .ok (v, rest)
      | .error e => .error e

/-- A container, if there are levels left for it and it claims at most `most` elements. -/
def readContainer {α : Type} (inner? : Option (Reader Value)) (count most : Nat)
    (read : Reader Value → Nat → Reader α) (make : α → Value) : Reader Value := fun bs =>
  match inner? with
  | none => .error .tooDeep
  | some inner =>
    if most < count then .error .oversized
    else
      match read inner count bs with
      | .ok (a, rest) => .ok (make a, rest)
      | .error e => .error e

/-- The value that a head starts, where elements are read by `inner?` and the document has `size`
bytes. -/
def readBody (size : Nat) (inner? : Option (Reader Value)) : Head → Reader Value
  | .nil => fun bs => .ok (.nil, bs)
  | .bool b => fun bs => .ok (.bool b, bs)
  | .int n => fun bs => .ok (.int n, bs)
  | .float d => fun bs => .ok (.float d, bs)
  | .str length => readPayload length readText
  | .bin length => readPayload length fun bs => .ok (.bin bs)
  | .array count => readContainer inner? count size (readItems · []) .array
  | .map count => readContainer inner? count (size / 2) (readPairs · []) .map
  | .ext code length =>
    readPayload length fun bs => (readExt? code bs).elim (.error .unsupportedExtension) .ok

/-- The value at the start of some bytes, by a head and what follows it. -/
def readWith (size : Nat) (inner? : Option (Reader Value)) : Reader Value := fun bs =>
  match Head.read bs with
  | .ok (head, rest) => readBody size inner? head rest
  | .error e => .error e

/-- The value at the start of some bytes, with at most `levels` containers inside one another. -/
def readValue (size : Nat) : (levels : Nat) → Reader Value
  | 0 => readWith size none
  | levels + 1 => readWith size (some (readValue size levels))

/-- The value that a document spells. -/
def decode (document : Bytes) : Except DecodeError Value :=
  match readValue document.size decodeLevels document.toList with
  | .error e => .error e
  | .ok (v, []) => .ok v
  | .ok (_, _ :: _) => .error .leftover

end Provenance.MessagePack
