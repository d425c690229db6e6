/-!
# UTF-8 with replacement

Decoding that never fails: each maximal part that no well-formed sequence continues becomes one
U+FFFD.

* `continuation` — for the first byte of a sequence, the range of the second byte and the number of
  bytes that follow the first.
* `utf8Text` — the text of a byte string.
-/

namespace Provenance

/-- The payload bits of a continuation byte. -/
def continuationBits (b : UInt8) : Nat := b.toNat % 64

/-- For the first byte of a sequence of several bytes: how many follow it, the least and greatest
second byte, and the payload bits of the first. -/
def continuation (b : UInt8) : Option (Nat × Nat × Nat × Nat) :=
  let n := b.toNat
  if 0xC2 ≤ n ∧ n ≤ 0xDF then some (1, 0x80, 0xBF, n - 0xC0)
  else if n = 0xE0 then some (2, 0xA0, 0xBF, 0)
  else if n = 0xED then some (2, 0x80, 0x9F, 0xD)
  else if 0xE1 ≤ n ∧ n ≤ 0xEF then some (2, 0x80, 0xBF, n - 0xE0)
  else if n = 0xF0 then some (3, 0x90, 0xBF, 0)
  else if 0xF1 ≤ n ∧ n ≤ 0xF3 then some (3, 0x80, 0xBF, n - 0xF0)
  else if n = 0xF4 then some (3, 0x80, 0x8F, 4)
  else none

/-- The state of decoding: between two characters, or inside a sequence of which `owed` more bytes
follow, the next of them from `low` to `high`. -/
inductive Utf8State where
  /-- Between two characters. -/
  | start
  /-- Inside a sequence; `bits` holds the payload so far. -/
  | inside (owed low high bits : Nat)

namespace Utf8State

/-- Starts a sequence: the characters that the byte completes, and the state after it. -/
def first (b : UInt8) : List Char × Utf8State :=
  if b.toNat < 0x80 then ([Char.ofNat b.toNat], start)
  else
    match continuation b with
    | some (owed, low, high, bits) => ([], inside owed low high bits)
    | none => (['\uFFFD'], start)

/-- Reads a byte: the characters that it completes, and the state after it. A byte that cannot
continue a sequence ends it with a replacement and starts anew. -/
def next (state : Utf8State) (b : UInt8) : List Char × Utf8State :=
  match state with
  | start => first b
  | inside owed low high bits =>
    if low ≤ b.toNat ∧ b.toNat ≤ high then
      let bits := bits * 64 + continuationBits b
      if owed ≤ 1 then ([Char.ofNat bits], start) else ([], inside (owed - 1) 0x80 0xBF bits)
    else
      let (chars, after) := first b
      ('\uFFFD' :: chars, after)

/-- The characters that are left when the bytes end. -/
def finish : Utf8State → List Char
  | start => []
  | inside .. => ['\uFFFD']

end Utf8State

/-- The characters of a byte string from a state on, after those in `done`, which are in reverse. -/
def utf8Chars (done : List Char) (state : Utf8State) : List UInt8 → List Char
  | [] => (state.finish ++ done).reverse
  | b :: rest =>
    let (chars, after) := state.next b
    utf8Chars (chars.reverse ++ done) after rest

/-- The text of a byte string. -/
def utf8Text (bs : List UInt8) : String :=
  String.ofList (utf8Chars [] .start bs)

end Provenance
