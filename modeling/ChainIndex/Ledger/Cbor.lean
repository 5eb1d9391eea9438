import ChainIndex.Chain.Cbor
import ChainIndex.Ledger.Tx

/-!
# Stored form of transactions and outputs

* `OutputRef`: fields 0 hash, 1 index.
* `TokenAmount`: fields 0 policy, 1 asset name, 2 amount.
* `TxOutput`: fields 0 slot, 1 address, 2 amount, 3 tokens, 4 datum, 5 datum hash, 6 used. The two
  data are left out when absent; on reading, null is the same as absent.
* `ReferencedOutput`: fields 0 reference, 1 output.
* `Tx`: fields 0 block slot, 1 block hash, 2 position, 3 hash, 4 era, 5 metadata, 6 fee, 7 valid,
  8 inputs, 9 outputs, 10 first output index. Metadata is left out when absent.
-/

namespace ChainIndex

open Cbor Cbor.Reader

namespace OutputRef

/-- Reads one field. -/
def Draft.readField (d : Draft) : UInt32 → Reader Draft
  | 0 => return { d with hash := some (← Hash.read) }
  | 1 => return { d with index := some (← uint32) }
  | _ => ignore d

/-- Reads a reference. -/
def read : Reader OutputRef := do
  let start ← get
  let d ← record Draft.readField {}
  return {
    hash := ← require start 0 "TxInput::hash" d.hash
    index := ← require start 1 "TxInput::index" d.index }

/-- The octets of a reference. -/
def write (r : OutputRef) : Bytes :=
  Write.fields [
    (0, some (Write.byteString r.hash.bytes)),
    (1, some (Write.unsigned r.index.toNat))]

end OutputRef

instance : Record OutputRef := ⟨"watchtower_common::tx::TxInput", OutputRef.write, OutputRef.read⟩

namespace TokenAmount

/-- Reads one field. -/
def Draft.readField (d : Draft) : UInt32 → Reader Draft
  | 0 => return { d with policyId := some (← byteString) }
  | 1 => return { d with assetName := some (← byteString) }
  | 2 => return { d with amount := some (← uint64) }
  | _ => ignore d

/-- Reads an amount. -/
def read : Reader TokenAmount := do
  let start ← get
  let d ← record Draft.readField {}
  return {
    policyId := ← require start 0 "TokenAmount::policy_id" d.policyId
    assetName := ← require start 1 "TokenAmount::asset_name" d.assetName
    amount := ← require start 2 "TokenAmount::amount" d.amount }

/-- The octets of an amount. -/
def write (t : TokenAmount) : Bytes :=
  Write.fields [
    (0, some (Write.byteString t.policyId)),
    (1, some (Write.byteString t.assetName)),
    (2, some (Write.unsigned t.amount.toNat))]

end TokenAmount

instance : Record TokenAmount := ⟨"watchtower_common::tx::TokenAmount", TokenAmount.write, TokenAmount.read⟩

namespace TxOutput

/-- Reads one field. -/
def Draft.readField (d : Draft) : UInt32 → Reader Draft
  | 0 => return { d with slot := some (← uint64) }
  | 1 => return { d with address := some (← text) }
  | 2 => return { d with amount := some (← uint64) }
  | 3 => return { d with tokens := some (← list TokenAmount.read) }
  | 4 => return { d with datum := ← optional byteString }
  | 5 => return { d with datumHash := ← optional Hash.read }
  | 6 => return { d with isUsed := some (← bool) }
  | _ => ignore d

/-- Reads an output. -/
def read : Reader TxOutput := do
  let start ← get
  let d ← record Draft.readField {}
  return {
    slot := ← require start 0 "TxOutput::slot" d.slot
    address := ← require start 1 "TxOutput::address" d.address
    amount := ← require start 2 "TxOutput::amount" d.amount
    tokens := ← require start 3 "TxOutput::tokens" d.tokens
    datum := d.datum
    datumHash := d.datumHash
    isUsed := ← require start 6 "TxOutput::is_used" d.isUsed }

/-- The octets of an output. -/
def write (o : TxOutput) : Bytes :=
  Write.fields [
    (0, some (Write.unsigned o.slot.toNat)),
    (1, some (Write.text o.address)),
    (2, some (Write.unsigned o.amount.toNat)),
    (3, some (Write.array (o.tokens.map TokenAmount.write))),
    (4, o.datum.map Write.byteString),
    (5, o.datumHash.map fun hash => Write.byteString hash.bytes),
    (6, some (Write.bool o.isUsed))]

end TxOutput

instance : Record TxOutput := ⟨"watchtower_common::tx::TxOutput", TxOutput.write, TxOutput.read⟩

namespace ReferencedOutput

/-- Reads one field. -/
def Draft.readField (d : Draft) : UInt32 → Reader Draft
  | 0 => return { d with ref := some (← OutputRef.read) }
  | 1 => return { d with output := some (← TxOutput.read) }
  | _ => ignore d

/-- Reads an output with its reference. -/
def read : Reader ReferencedOutput := do
  let start ← get
  let d ← record Draft.readField {}
  return {
    ref := ← require start 0 "TxInputOutput::input" d.ref
    output := ← require start 1 "TxInputOutput::output" d.output }

/-- The octets of an output with its reference. -/
def write (o : ReferencedOutput) : Bytes :=
  Write.fields [(0, some o.ref.write), (1, some o.output.write)]

end ReferencedOutput

instance : Record ReferencedOutput :=
  ⟨"watchtower_common::tx::TxInputOutput", ReferencedOutput.write, ReferencedOutput.read⟩

namespace Tx

/-- Reads one field. -/
def Draft.readField (d : Draft) : UInt32 → Reader Draft
  | 0 => return { d with blockSlot := some (← uint64) }
  | 1 => return { d with blockHash := some (← Hash.read) }
  | 2 => return { d with indexInBlock := some (← uint32) }
  | 3 => return { d with hash := some (← Hash.read) }
  | 4 => return { d with eraId := some (← uint8) }
  | 5 => return { d with metadata := ← optional byteString }
  | 6 => return { d with fee := some (← uint64) }
  | 7 => return { d with isValid := some (← bool) }
  | 8 => return { d with inputs := some (← list ReferencedOutput.read) }
  | 9 => return { d with outputs := some (← list TxOutput.read) }
  | 10 => return { d with firstOutputIndex := some (← uint32) }
  | _ => ignore d

/-- Reads a transaction. -/
def read : Reader Tx := do
  let start ← get
  let d ← record Draft.readField {}
  return {
    blockSlot := ← require start 0 "Tx::block_slot" d.blockSlot
    blockHash := ← require start 1 "Tx::block_hash" d.blockHash
    indexInBlock := ← require start 2 "Tx::index_in_block" d.indexInBlock
    hash := ← require start 3 "Tx::hash" d.hash
    eraId := ← require start 4 "Tx::era_id" d.eraId
    metadata := d.metadata
    fee := ← require start 6 "Tx::fee" d.fee
    isValid := ← require start 7 "Tx::is_valid" d.isValid
    inputs := ← require start 8 "Tx::inputs" d.inputs
    outputs := ← require start 9 "Tx::outputs" d.outputs
    firstOutputIndex := ← require start 10 "Tx::first_output_index" d.firstOutputIndex }

/-- The octets of a transaction. -/
def write (tx : Tx) : Bytes :=
  Write.fields [
    (0, some (Write.unsigned tx.blockSlot.toNat)),
    (1, some (Write.byteString tx.blockHash.bytes)),
    (2, some (Write.unsigned tx.indexInBlock.toNat)),
    (3, some (Write.byteString tx.hash.bytes)),
    (4, some (Write.unsigned tx.eraId.toNat)),
    (5, tx.metadata.map Write.byteString),
    (6, some (Write.unsigned tx.fee.toNat)),
    (7, some (Write.bool tx.isValid)),
    (8, some (Write.array (tx.inputs.map ReferencedOutput.write))),
    (9, some (Write.array (tx.outputs.map TxOutput.write))),
    (10, some (Write.unsigned tx.firstOutputIndex.toNat))]

end Tx

instance : Record Tx := ⟨"watchtower_common::tx::Tx", Tx.write, Tx.read⟩

end ChainIndex
