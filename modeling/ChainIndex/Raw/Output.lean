import ChainIndex.Address.Text
import ChainIndex.Chain.Cbor
import ChainIndex.Ledger.Tx
import ChainIndex.Raw.Script

/-!
# Raw outputs

* `RawRef`: the output that an input spends, as a transaction names it.
* `RawOutput`: an output as a transaction creates it. `RawOutput.read` reads those since Shelley:
  an array of address, value and datum hash, or since Babbage also a map that may hold a datum and a
  script.
* `RawRef.toOutputRef`, `RawOutput.toOutput`: the same as the index keeps them. An index is cut to 32 bits,
  and an address without a text becomes the empty text.
-/

namespace ChainIndex

open Cbor Cbor.Reader

/-- The output that an input spends. -/
structure RawRef where
  hash : TxHash
  index : UInt64
deriving DecidableEq

/-- A datum by its hash, or in place as raw CBOR. -/
inductive RawDatum where
  | hash (hash : DatumHash)
  | inline (octets : Bytes)
deriving DecidableEq

/-- An output as a transaction creates it. -/
structure RawOutput where
  address : Except Address.Error Address
  coin : UInt64
  tokens : List TokenAmount
  datum : Option RawDatum

namespace Raw

/-- A hash of `size` octets. -/
def hash (size : Nat) : Reader (Hash size) := Hash.read

/-- A quantity of a token; since Conway an output holds no zero quantities. -/
def quantity (allowZero : Bool) : Reader UInt64 := do
  let n ← uint64
  if n = 0 ∧ allowZero = false then throw (.message "zero quantity")
  return n

/-- The tokens of a value, by policy and asset name, in the order of the map. -/
def tokens (allowZero : Bool) : Reader (List TokenAmount) := do
  let groups ← entries (hash 28) (entries byteString (quantity allowZero))
  return groups.flatMap fun (policy, assets) =>
    assets.map fun (name, amount) => ⟨policy.bytes, name, amount⟩

/-- A value: lovelace alone, or a definite array of lovelace and tokens, whose announced length is not
looked at. -/
def value (allowZero : Bool) : Reader (UInt64 × List TokenAmount) := do
  if (← nextKind) = .unsigned then return (← uint64, [])
  if (← arrayHead).isNone then throw (.unexpected "indefinite array")
  let coin ← uint64
  return (coin, ← tokens allowZero)

/-- A datum by its hash, or in a tagged byte string. -/
def datum : Reader RawDatum :=
  variant [
    (0, return .hash (← hash 32)),
    (1, wrapped do
      let ((), octets) ← withOctets Shape.plutusData
      return .inline octets)]

end Raw

namespace RawRef

/-- Reads a reference. -/
def read : Reader RawRef :=
  items do
    let hash ← Items.next (Raw.hash 32)
    return ⟨hash, ← Items.next uint64⟩

/-- The reference as the index keeps it. -/
def toOutputRef (ref : RawRef) : OutputRef := ⟨ref.hash, ref.index.toUInt32⟩

end RawRef

namespace RawOutput

/-- Reads an output that is an array. -/
def readArray : Reader RawOutput :=
  items do
    let address ← Items.next byteString
    let (coin, tokens) ← Items.next (Raw.value true)
    let datumHash ← Items.nextOptional (Raw.hash 32)
    return ⟨Address.ofBytes address, coin, tokens, datumHash.map .hash⟩

/-- The fields of an output met so far. -/
structure Draft where
  address : Option Bytes := none
  value : Option (UInt64 × List TokenAmount) := none
  datum : Option RawDatum := none

/-- Reads one field of an output that is a map. -/
def Draft.readField (form : Raw.Form) (d : Draft) : UInt32 → Reader Draft
  | 0 => return { d with address := some (← byteString) }
  | 1 => return { d with value := some (← Raw.value (form ≠ .conway)) }
  | 2 => return { d with datum := ← optional Raw.datum }
  | 3 => do
    Cbor.Shape.optional (wrapped (Raw.Shape.heldScript form))
    return d
  | _ => do
    skip
    return d

/-- Reads an output that is a map. -/
def readMap (form : Raw.Form) : Reader RawOutput := do
  let d ← foldMap (fun d => do Draft.readField form d (← uint32)) {}
  match d.address, d.value with
  | some address, some (coin, tokens) => return ⟨Address.ofBytes address, coin, tokens, d.datum⟩
  | _, _ => throw .missingItem

/-- Reads an output. -/
def read (form : Raw.Form) : Reader RawOutput := do
  if form ≠ .shelley ∧ (← nextKind) = .map then readMap form else readArray

/-- The text of the address, if it has one. -/
def addressText (output : RawOutput) : String :=
  match output.address >>= Address.text with
  | .ok text => text
  | .error _ => ""

/-- The datum in place. -/
def inlineDatum (output : RawOutput) : Option Bytes :=
  match output.datum with
  | some (.inline octets) => some octets
  | _ => none

/-- The hash of a datum that is not in place. -/
def datumHash (output : RawOutput) : Option DatumHash :=
  match output.datum with
  | some (.hash hash) => some hash
  | _ => none

/-- The output as the index keeps it; `slot` is that of its block. -/
def toOutput (output : RawOutput) (slot : UInt64) : TxOutput where
  slot
  address := output.addressText
  amount := output.coin
  tokens := output.tokens
  datum := output.inlineDatum
  datumHash := output.datumHash

end RawOutput

end ChainIndex
