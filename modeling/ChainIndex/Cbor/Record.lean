import ChainIndex.Cbor.Skip
import ChainIndex.Cbor.Writer

/-!
# Records as CBOR maps

* `Record α`: the stored form of a type: how it is written, how it is read and how errors call it.
* `Record.encode` and `Record.decode`: a value to octets and back; octets behind the value are
  ignored.
* `Reader.record` reads a map with numbered fields in any order: of a repeated field the last counts,
  and a number that the record does not use is passed over with its item. `Reader.require` refuses a
  record that lacks a field.
-/

namespace ChainIndex.Cbor

/-- The stored form of a type. -/
class Record (α : Type) where
  /-- How errors call the type. -/
  name : String
  write : α → Bytes
  read : Reader α

namespace Record

variable {α : Type} [Record α]

/-- The octets of a value. -/
def encode (a : α) : Bytes := write a

/-- The value at the front of octets. -/
def decode (bytes : Bytes) : Except Error α := Reader.runFront read bytes

end Record

namespace Reader

/-- Reads a map from field numbers; `field` reads the item of one. -/
def record {σ : Type} (field : σ → UInt32 → Reader σ) (empty : σ) : Reader σ :=
  foldMap (fun draft => do field draft (← uint32)) empty

/-- Passes over the item of a field that the record does not use. -/
def ignore {σ : Type} (draft : σ) : Reader σ := do
  skip
  return draft

/-- The value of a field that must be there, by its number and name, in a record that began with the octets
`start`. -/
def require {α : Type} (start : Bytes) (index : Nat) (name : String) : Option α → Reader α
  | some a => return a
  | none => throw { cause := .missingValue index, left? := some start.length, note := name }

end Reader

end ChainIndex.Cbor
