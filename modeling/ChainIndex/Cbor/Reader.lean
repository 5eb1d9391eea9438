import ChainIndex.Bytes.Utf8
import ChainIndex.Cbor.Error

/-!
# Reading CBOR

* `Reader α`: reads an `α` from the front of the octets and leaves the rest.
* `unsignedOf`, `uint8`, `uint32`, `uint64`, `caseNumber`, `bool`, `byteString`, `text`: single values. A
  head may be longer than it needs to be; byte strings and texts must be definite.
* `arrayHead`, `mapHead`: the announced number of items, or none for an indefinite container.
* `foldArray`, `foldMap`: a step for each item up to the announced number or the break.

Naming the kind of an item that does not fit needs, for a negative number with a longer head, one
octet beyond the head; so such an item at the very end is reported as a lack of input
(`mismatch`).
-/

namespace ChainIndex.Cbor

/-- Reads a value from the front of the octets. -/
abbrev Reader := StateT Bytes (Except Fault)

namespace Reader

/-- The octet that ends an indefinite container. -/
def breakHead : UInt8 := 0xff

/-- Whether a head announces a negative number in further octets. -/
def isLongNegative (head : UInt8) : Bool := 0x38 ≤ head && head ≤ 0x3b

/-- Takes one octet. -/
def byte : Reader UInt8 := fun input =>
  match input with
  | [] => .error .endOfInput
  | b :: rest => .ok (b, rest)

/-- Looks at the next octet. -/
def peek : Reader UInt8 := fun input =>
  match input with
  | [] => .error .endOfInput
  | b :: rest => .ok (b, b :: rest)

/-- Takes `count` octets. -/
def take (count : Nat) : Reader Bytes := fun input =>
  match input.takeExact? count with
  | some (front, rest) => .ok (front, rest)
  | none => .error .endOfInput

/-- Refuses the item whose head was taken. -/
def mismatch {α : Type} (head : UInt8) (wanted : String) : Reader α := fun input =>
  if isLongNegative head && input.length < 2 then .error .endOfInput
  else
    .error {
      cause := .typeMismatch (itemName head (input.getD 1 0))
      left? := some (input.length + 1)
      note := "expected " ++ wanted }

/-- The number in a head with the given low bits. -/
def argument (bits : Nat) : Reader Nat := fun input =>
  let number (size : Nat) : Except Fault (Nat × Bytes) :=
    match input.takeExact? size with
    | some (front, rest) => .ok (ofBigEndian front, rest)
    | none => .error .endOfInput
  if bits < 24 then .ok (bits, input)
  else if bits = 24 then number 1
  else if bits = 25 then number 2
  else if bits = 26 then number 4
  else if bits = 27 then number 8
  else
    .error {
      cause := .typeMismatch (itemName (UInt8.ofNat bits) 0)
      left? := some (input.length + 1)
      note := "expected u64" }

/-- Refuses a number that does not fit, whose head had the given low bits. -/
def overflow {α : Type} (n bits width : Nat) : Reader α := fun input =>
  let size := if bits < 24 then 0 else Nat.pow 2 (bits - 24)
  .error {
    cause := .overflow n
    left? := some (input.length + size + 1)
    note := "when converting u" ++ toString (8 * size) ++ " to u" ++ toString width }

/-- An unsigned number of a width in bits. -/
def unsignedOf (width : Nat) : Reader Nat := do
  let head ← byte
  if Major.ofHead head = .unsigned ∧ info head < 28 then
    let n ← argument (info head)
    if n < Nat.pow 2 width then return n else overflow n (info head) width
  else mismatch head ("u" ++ toString width)

/-- An unsigned number of 8 bits. -/
def uint8 : Reader UInt8 := return UInt8.ofNat (← unsignedOf 8)

/-- An unsigned number of 32 bits. -/
def uint32 : Reader UInt32 := return UInt32.ofNat (← unsignedOf 32)

/-- An unsigned number of 64 bits. -/
def uint64 : Reader UInt64 := return UInt64.ofNat (← unsignedOf 64)

/-- The number of one of `count` cases. -/
def caseNumber (count : Nat) : Reader Nat := do
  let left := (← get).length
  let n := (← uint32).toNat
  if n < count then return n else throw (.unknownCase n left (← get))

/-- One of the two truth values. -/
def bool : Reader Bool := do
  let head ← byte
  if head = 0xf4 then return false
  else if head = 0xf5 then return true
  else mismatch head "bool"

/-- How errors call a kind of string or container. -/
def kindName : Major → String
  | .bytes => "bytes (definite length)"
  | .text => "text (definite length)"
  | .array => "array"
  | .map => "map"
  | .tag => "tag"
  | .unsigned | .negative => "number"
  | .simple => "simple value"

/-- The octets of a definite string of the kind asked for. -/
def definiteString (kind : Major) : Reader Bytes := do
  let head ← byte
  if Major.ofHead head = kind ∧ info head ≠ 31 then take (← argument (info head))
  else mismatch head (kindName kind)

/-- A definite byte string. -/
def byteString : Reader Bytes := definiteString .bytes

/-- Octets as text. -/
def utf8 (bytes : Bytes) : Reader String :=
  match Utf8.decode? bytes with
  | some text => return text
  | none => throw .utf8

/-- A definite text. -/
def text : Reader String := do utf8 (← definiteString .text)

/-- The head of a container of the kind asked for: the announced number of entries, if it is
definite. -/
def containerHead (kind : Major) : Reader (Option Nat) := do
  let head ← byte
  if Major.ofHead head = kind then
    if info head = 31 then return none else return some (← argument (info head))
  else mismatch head (kindName kind)

/-- The head of an array: the announced number of items, if it is definite. -/
def arrayHead : Reader (Option Nat) := containerHead .array

/-- The head of a map: the announced number of entries, if it is definite. -/
def mapHead : Reader (Option Nat) := containerHead .map

/-- Fails at the end of the octets and, as naming the next item would, where the next item is a
negative number with a longer head and nothing follows the head. -/
def checkNamed : Reader Unit := fun input =>
  match input with
  | [] => .error .endOfInput
  | [head] => if isLongNegative head then .error .endOfInput else .ok ((), [head])
  | head :: next :: rest => .ok ((), head :: next :: rest)

/-- Whether null comes next; it is then taken. -/
def null : Reader Bool := do
  checkNamed
  if (← peek) = 0xf6 then
    let _ ← byte
    return true
  else return false

/-- Nothing for null, and else what `value` reads. -/
def optional {α : Type} (value : Reader α) : Reader (Option α) := do
  if ← null then return none else return some (← value)

/-- Repeats a step a number of times. -/
def foldCount {σ : Type} (step : σ → Reader σ) : Nat → σ → Reader σ
  | 0, s => return s
  | n + 1, s => do foldCount step n (← step s)

/-- Repeats a step until the break, which is taken; `fuel` bounds the number of steps. -/
def foldUntilBreak {σ : Type} (before : Reader Unit) (step : σ → Reader σ) : Nat → σ → Reader σ
  | 0, _ => throw .endOfInput
  | fuel + 1, s => do
    before
    if (← peek) = breakHead then
      let _ ← byte
      return s
    else foldUntilBreak before step fuel (← step s)

/-- Runs a step for each item of an array. -/
def foldArray {σ : Type} (step : σ → Reader σ) (init : σ) : Reader σ := do
  match ← arrayHead with
  | some n => foldCount step n init
  | none => foldUntilBreak (pure ()) step ((← get).length + 1) init

/-- Runs a step for each entry of a map; the step reads key and value. -/
def foldMap {σ : Type} (step : σ → Reader σ) (init : σ) : Reader σ := do
  match ← mapHead with
  | some n => foldCount step n init
  | none => foldUntilBreak checkNamed step ((← get).length + 1) init

/-- A list of values. -/
def list {α : Type} (value : Reader α) : Reader (List α) := do
  let reversed ← foldArray (fun items => return (← value) :: items) []
  return reversed.reverse

/-- The entries of a map, in their order; a key may come more than once. -/
def entries {α β : Type} (key : Reader α) (value : Reader β) : Reader (List (α × β)) := do
  let reversed ← foldMap (fun items => do
    let k ← key
    return (k, ← value) :: items) []
  return reversed.reverse

/-- Reads a value off the front of octets; what follows does not matter. -/
def runFront {α : Type} (reader : Reader α) (input : Bytes) : Except Error α :=
  match reader input with
  | .ok (a, _) => .ok a
  | .error f => .error (f.within input.length)

end Reader

end ChainIndex.Cbor
