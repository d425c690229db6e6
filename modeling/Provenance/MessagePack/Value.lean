import Provenance.Number.Shortest
import Provenance.Text.Quoted

/-!
# MessagePack values

* `Value` — what a MessagePack document can hold.
* `Value.field?` — the value that a map holds under a name.
* `Value.elements?` — the values that a value is made of, if it is made of values.
* `Value.literal` — a value for a reader, with every text in quotes.
* `Value.text` — the same, except that a value which is a text stands for itself.
-/

namespace Provenance.MessagePack

/-- What a MessagePack document can hold. -/
inductive Value where
  /-- No value. -/
  | nil
  /-- A truth value. -/
  | bool (b : Bool)
  /-- An integer. -/
  | int (n : Int)
  /-- A double. -/
  | float (d : Double)
  /-- A text. -/
  | str (s : Text)
  /-- A byte string. -/
  | bin (bs : List UInt8)
  /-- Values in order. -/
  | array (items : List Value)
  /-- Keys with their values, in order. -/
  | map (pairs : List (Value × Value))
  /-- Bytes whose meaning is left to an application. -/
  | ext (code : Nat) (payload : List UInt8)
  /-- A point in time: seconds since 1970, and nanoseconds after them. -/
  | timestamp (seconds : Int) (nanoseconds : Nat)

namespace Value

instance : Inhabited Value := ⟨nil⟩

/-- Whether two values are the same text or the same byte string. -/
def sameKey : Value → Value → Bool
  | str a, str b => a == b
  | bin a, bin b => a == b
  | _, _ => false

/-- The value under a name, in the pairs of a map. -/
def field? (pairs : List (Value × Value)) (name : String) : Option Value :=
  (pairs.find? fun p => p.1.sameKey (str name)).map (·.2)

/-- The values that a value is made of, in order: the code points of a text, the numbers of a byte
string, the items of an array, the keys of a map, the two parts of an extension. -/
def elements? : Value → Option (List Value)
  | str s => some (s.map fun c => str [c])
  | bin bs => some (bs.map fun b => int b.toNat)
  | array items => some items
  | map pairs => some (pairs.map (·.1))
  | ext code payload => some [int code, bin payload]
  | nil | bool _ | int _ | float _ | timestamp .. => none

/-- The word for the kind of a value. -/
def kind : Value → String
  | nil => "NoneType"
  | bool _ => "bool"
  | int _ => "int"
  | float _ => "float"
  | str _ => "str"
  | bin _ => "bytes"
  | array _ => "list"
  | map _ => "dict"
  | ext .. => "ExtType"
  | timestamp .. => "Timestamp"

mutual

/-- A value for a reader. -/
def literal : Value → String
  | nil => "None"
  | bool true => "True"
  | bool false => "False"
  | int n => toString n
  | float d => d.text
  | str s => Text.quote s
  | bin bs => Text.quoteBytes bs
  | array items => "[" ++ ", ".intercalate (literals items) ++ "]"
  | map pairs => "\x7b" ++ ", ".intercalate (pairLiterals pairs) ++ "\x7d"
  | ext code payload =>
    "ExtType(code=" ++ toString code ++ ", data=" ++ Text.quoteBytes payload ++ ")"
  | timestamp seconds nanoseconds =>
    "Timestamp(seconds=" ++ toString seconds ++ ", nanoseconds=" ++ toString nanoseconds ++ ")"

/-- Values for a reader. -/
def literals : List Value → List String
  | [] => []
  | v :: rest => v.literal :: literals rest

/-- Keys and values for a reader. -/
def pairLiterals : List (Value × Value) → List String
  | [] => []
  | (k, v) :: rest => (k.literal ++ ": " ++ v.literal) :: pairLiterals rest

end

/-- A value for a reader; a text stands for itself. -/
def text : Value → Text
  | str s => s
  | v => v.literal

end Value

end Provenance.MessagePack
