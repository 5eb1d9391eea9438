import ChainIndex.Digest.Blake2b
import ChainIndex.Ledger.Tx
import ChainIndex.Raw.Governance
import ChainIndex.Raw.Output
import ChainIndex.Raw.Script

/-!
# Raw transactions

* `RawBody`: what the index uses of the body of a transaction; the rest is only checked for its form.
* `RawTx`: a transaction with its standing in the block. A transaction that failed in its second phase
  consumes its collateral instead of its inputs and creates at most its collateral return
  (`RawTx.consumed`, `RawTx.created`).
* `RawTx.toTx`: the transaction as the index keeps it.
-/

namespace ChainIndex

open Cbor Cbor.Reader

/-- What is used of the body of a transaction. -/
structure RawBody where
  inputs : List RawRef
  outputs : List RawOutput
  fee : UInt64
  collateral : List RawRef
  collateralReturn : Option RawOutput

namespace RawBody

/-- The fields of a body that are only checked. -/
def checkedFields (form : Raw.Form) : List (Nat × Cbor.Shape) :=
  let collection (item : Cbor.Shape) : Cbor.Shape := .of (form.collection item)
  let allowZero : Bool := form ≠ .conway
  let common := [
    (3, .uint64), (4, collection (Raw.Shape.certificate form)), (5, .map .bytes .uint64), (7, .bytes),
    (8, .uint64), (9, Raw.Shape.assets (.int64 allowZero)), (11, Raw.Shape.hash),
    (14, collection Raw.Shape.keyHash), (15, .caseNumber 2)]
  let babbage := [(17, .uint64), (18, collection Raw.Shape.reference)]
  match form with
  | .shelley => common ++ [(6, Raw.Shape.update form)]
  | .babbage => common ++ [(6, Raw.Shape.update form)] ++ babbage
  | .conway =>
    common ++ babbage ++
      [(19, Raw.Shape.votes), (20, .set Raw.Shape.proposal), (21, .uint64), (22, .positive)]

/-- The fields of a body met so far. -/
structure Draft where
  inputs : Option (List RawRef) := none
  outputs : Option (List RawOutput) := none
  fee : Option UInt64 := none
  collateral : Option (List RawRef) := none
  collateralReturn : Option RawOutput := none

/-- Reads one field. -/
def Draft.readField (form : Raw.Form) (d : Draft) (number : UInt32) : Reader Draft :=
  match number, form with
  | 0, _ => return { d with inputs := some (← form.collection RawRef.read) }
  | 1, _ => return { d with outputs := some (← list (RawOutput.read form)) }
  | 2, _ => return { d with fee := some (← uint64) }
  | 13, _ => return { d with collateral := ← optional (form.collection RawRef.read) }
  | 16, .babbage | 16, .conway =>
    return { d with collateralReturn := ← optional (RawOutput.read form) }
  | _, _ => do
    match (checkedFields form).lookup number.toNat with
    | some shape => Cbor.Shape.optionalField shape
    | none => skip
    return d

/-- Reads a body. -/
def read (form : Raw.Form) : Reader RawBody := do
  let d ← foldMap (fun d => do Draft.readField form d (← uint32)) {}
  match d.inputs, d.outputs, d.fee with
  | some inputs, some outputs, some fee =>
    return ⟨inputs, outputs, fee, d.collateral.getD [], d.collateralReturn⟩
  | _, _, _ => throw .missingItem

end RawBody

/-- A transaction with its standing in the block. -/
structure RawTx where
  hash : TxHash
  body : RawBody
  /-- Whether the second phase succeeded. -/
  isValid : Bool
  /-- Auxiliary data, raw CBOR. -/
  metadata : Option Bytes

/-- A list without repeats; the first of equal elements stays. -/
def distinct {α : Type} [DecidableEq α] : List α → List α
  | [] => []
  | a :: rest => a :: (distinct rest).filter (· ≠ a)

namespace RawTx

/-- A transaction of a body and its octets, which its hash is taken of. -/
def ofBody (body : RawBody) (octets : Bytes) (isValid : Bool) (metadata : Option Bytes) : RawTx :=
  ⟨blake2b256 octets, body, isValid, metadata⟩

/-- Reads a transaction that stands alone: body, witnesses, whether it is valid, auxiliary data. -/
def read (form : Raw.Form) : Reader RawTx :=
  items do
    let (body, octets) ← Items.next (withOctets (RawBody.read form))
    Items.next (Raw.Shape.witnesses form)
    let isValid ← Items.next bool
    let metadata ← Items.next (nullable (withOctets Raw.Shape.auxiliaryData))
    return ofBody body octets isValid (metadata.map (·.2))

/-- The outputs that a transaction consumes, each once, in order. -/
def consumed (tx : RawTx) : List RawRef :=
  distinct (if tx.isValid then tx.body.inputs else tx.body.collateral)

/-- The outputs that a transaction creates, with their indices. -/
def created (tx : RawTx) : List (Nat × RawOutput) :=
  if tx.isValid then tx.body.outputs.zipIdx.map fun (output, index) => (index, output)
  else tx.body.collateralReturn.toList.map fun output => (tx.body.outputs.length, output)

/-- The index of the first output created, if there is one. -/
def firstOutputIndex (tx : RawTx) : UInt32 :=
  match tx.created with
  | [] => 0
  | (index, _) :: _ => UInt32.ofNat index

/-- The transaction as the index keeps it, with its inputs not looked up. -/
def toTx (tx : RawTx) (blockSlot : UInt64) (blockHash : BlockHash) (indexInBlock : UInt32)
    (eraId : UInt8) : Tx where
  blockSlot
  blockHash
  indexInBlock
  hash := tx.hash
  eraId
  metadata := tx.metadata
  fee := tx.body.fee
  isValid := tx.isValid
  inputs := tx.consumed.map fun ref => .unresolved ref.toOutputRef
  outputs := tx.created.map fun (_, output) => output.toOutput blockSlot
  firstOutputIndex := tx.firstOutputIndex

end RawTx

end ChainIndex
