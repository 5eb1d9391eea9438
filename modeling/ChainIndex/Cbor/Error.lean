import ChainIndex.Bytes.Basic
import ChainIndex.Text

/-!
# Why CBOR cannot be read

* `Cbor.Cause`: the classes of failure. The first one met in the order of the octets is reported.
* `Cbor.Fault`: a failure inside octets of which the size is not known, `Cbor.Error` one at a position;
  `Fault.within` makes one of the other. `Error.describe` is the text shown.
* `itemName`: how errors call the item that a head begins.
-/

namespace ChainIndex.Cbor

/-- The classes of failure. -/
inductive Cause where
  /-- The octets end inside the value. -/
  | endOfInput
  /-- An item of another kind stands where the value should be. -/
  | typeMismatch (found : String)
  /-- A record lacks a field that it must have. -/
  | missingValue (index : Nat)
  /-- A text is not UTF-8. -/
  | utf8
  /-- A number does not fit its field. -/
  | overflow (n : Nat)
  /-- An enumeration has no case of a number. -/
  | unknownCase (n : Nat)
  /-- The value is of the right kind and still not acceptable. -/
  | message
deriving DecidableEq, Repr

/-- The text shown for a cause. -/
def Cause.describe : Cause → String
  | endOfInput => "end of input bytes"
  | typeMismatch found => "unexpected type " ++ found
  | missingValue index => "missing value at index " ++ toString index
  | utf8 => "invalid utf-8"
  | overflow n => toString n ++ " overflows target type"
  | unknownCase n => "unknown enum variant " ++ toString n
  | message => "decode error"

/-- A failure while octets are read. -/
structure Fault where
  cause : Cause
  /-- How many octets there are from the beginning of the item at fault on, if that item is known. -/
  left? : Option Nat := none
  note : String := ""
  /-- For an unknown case, the octets from which reading may go on. -/
  resume? : Option Bytes := none
deriving DecidableEq, Repr

namespace Fault

/-- The octets end inside the value. -/
def endOfInput : Fault := { cause := .endOfInput }

/-- A text is not UTF-8. -/
def utf8 : Fault := { cause := .utf8 }

/-- An array is too short for its record. -/
def missingItem : Fault := { cause := .missingValue 0 }

/-- An item of another kind stands where the value should be. -/
def unexpected (found : String) : Fault := { cause := .typeMismatch found }

/-- The value is not acceptable. -/
def message (text : String) : Fault := { cause := .message, note := text }

/-- An enumeration, of which `left` octets are left from its number on, has no case of a number `n`, behind
which the octets `rest` follow. -/
def unknownCase (n left : Nat) (rest : Bytes) : Fault :=
  { cause := .unknownCase n, left? := some left, resume? := some rest }

end Fault

/-- Why octets are not the form of the value asked for. -/
structure Error where
  cause : Cause
  /-- Where the item at fault begins, if it is known. -/
  position? : Option Nat := none
  note : String := ""
deriving DecidableEq, Repr

/-- A failure inside octets of a size. -/
def Fault.within (size : Nat) (f : Fault) : Error := ⟨f.cause, f.left?.map (size - ·), f.note⟩

/-- The text shown for an error. -/
def Error.describe (e : Error) : String :=
  e.cause.describe ++ (e.position?.map fun p => " at position " ++ toString p).getD "" ++
    (if e.note = "" then "" else ": " ++ e.note)

/-- The kinds of item, as the top three bits of a head number them. -/
inductive Major where
  | unsigned | negative | bytes | text | array | map | tag | simple
deriving DecidableEq, Repr

/-- The kind of item that a head begins. -/
def Major.ofHead (head : UInt8) : Major :=
  match head.toNat / 32 with
  | 0 => unsigned
  | 1 => negative
  | 2 => bytes
  | 3 => text
  | 4 => array
  | 5 => map
  | 6 => tag
  | _ => simple

/-- The low five bits of a head. -/
def info (head : UInt8) : Nat := head.toNat % 32

/-- How errors call the item that a head begins. The octet behind tells how wide a negative number is. -/
def itemName (head next : UInt8) : String :=
  let isWide := 0x80 ≤ next
  let bits := info head
  let unknown := "0x" ++ Text.lowerHex head.toNat
  let container (name : String) : String :=
    if bits < 28 then name else if bits = 31 then "indefinite " ++ name else unknown
  match Major.ofHead head with
  | .unsigned =>
    if bits ≤ 24 then "u8" else if bits = 25 then "u16" else if bits = 26 then "u32"
    else if bits = 27 then "u64" else unknown
  | .negative =>
    if bits < 24 then "i8"
    else if bits = 24 then (if isWide then "i16" else "i8")
    else if bits = 25 then (if isWide then "i32" else "i16")
    else if bits = 26 then (if isWide then "i64" else "i32")
    else if bits = 27 then (if isWide then "int" else "i64")
    else unknown
  | .bytes => container "bytes"
  | .text => container "string"
  | .array => container "array"
  | .map => container "map"
  | .tag => if bits < 28 then "tag" else unknown
  | .simple =>
    match bits with
    | 20 | 21 => "bool"
    | 22 => "null"
    | 23 => "undefined"
    | 25 => "f16"
    | 26 => "f32"
    | 27 => "f64"
    | 31 => "break"
    | _ => if bits < 25 then "simple" else unknown

end ChainIndex.Cbor
