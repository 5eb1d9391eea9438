import ChainIndex.Chain.Json
import ChainIndex.Ledger.Tx

/-!
# JSON form of transactions and outputs

Octet strings are arrays of numbers here. The datum, the datum hash and the metadata may be null or
missing.
-/

namespace ChainIndex

/-- Octets as an array of numbers. -/
def octetsToJson (bytes : Bytes) : Json := .arr (bytes.map fun byte => .nat byte.toNat)

namespace OutputRef

/-- The fields of a reference. -/
def form : Json.ObjectForm Draft OutputRef where
  fields := [
    { name := "hash", read := fun d j => return { d with hash := some (← Hash.ofJson j) } },
    { name := "index", read := fun d j => return { d with index := some (← Json.uint32 j) } }]
  empty := {}
  finish d := return ⟨← Json.need "hash" d.hash, ← Json.need "index" d.index⟩

/-- Reads the value from JSON. -/
def ofJson : Json.Decoder OutputRef := form.decode

/-- The JSON form of the value. -/
def toJson (r : OutputRef) : Json :=
  .obj [("hash", r.hash.toJson), ("index", .nat r.index.toNat)]

instance : ToJson OutputRef := ⟨toJson⟩
instance : FromJson OutputRef := ⟨ofJson⟩

end OutputRef

namespace TokenAmount

/-- The fields of an amount. -/
def form : Json.ObjectForm Draft TokenAmount where
  fields := [
    { name := "policy_id", read := fun d j => return { d with policyId := some (← Json.octets j) } },
    { name := "asset_name",
      read := fun d j => return { d with assetName := some (← Json.octets j) } },
    { name := "amount", read := fun d j => return { d with amount := some (← Json.uint64 j) } }]
  empty := {}
  finish d := return ⟨← Json.need "policy_id" d.policyId, ← Json.need "asset_name" d.assetName,
    ← Json.need "amount" d.amount⟩

/-- Reads the value from JSON. -/
def ofJson : Json.Decoder TokenAmount := form.decode

/-- The JSON form of the value. -/
def toJson (t : TokenAmount) : Json :=
  .obj [("policy_id", octetsToJson t.policyId), ("asset_name", octetsToJson t.assetName),
    ("amount", .nat t.amount.toNat)]

instance : ToJson TokenAmount := ⟨toJson⟩
instance : FromJson TokenAmount := ⟨ofJson⟩

end TokenAmount

namespace TxOutput

/-- The fields of an output. -/
def form : Json.ObjectForm Draft TxOutput where
  fields := [
    { name := "slot", read := fun d j => return { d with slot := some (← Json.uint64 j) } },
    { name := "address", read := fun d j => return { d with address := some (← Json.string j) } },
    { name := "amount", read := fun d j => return { d with amount := some (← Json.uint64 j) } },
    { name := "tokens",
      read := fun d j => return { d with tokens := some (← Json.array TokenAmount.ofJson j) } },
    { name := "datum", read := fun d j => return { d with datum := ← Json.optional Json.octets j } },
    { name := "datum_hash",
      read := fun d j => return { d with datumHash := ← Json.optional Hash.ofJson j } },
    { name := "is_used", read := fun d j => return { d with isUsed := some (← Json.boolean j) } }]
  empty := {}
  finish d := return {
    slot := ← Json.need "slot" d.slot
    address := ← Json.need "address" d.address
    amount := ← Json.need "amount" d.amount
    tokens := ← Json.need "tokens" d.tokens
    datum := d.datum
    datumHash := d.datumHash
    isUsed := ← Json.need "is_used" d.isUsed }

/-- Reads the value from JSON. -/
def ofJson : Json.Decoder TxOutput := form.decode

/-- The JSON form of the value. -/
def toJson (o : TxOutput) : Json :=
  .obj [("slot", .nat o.slot.toNat), ("address", .str o.address), ("amount", .nat o.amount.toNat),
    ("tokens", .arr (o.tokens.map TokenAmount.toJson)), ("datum", .opt (o.datum.map octetsToJson)),
    ("datum_hash", .opt (o.datumHash.map Hash.toJson)), ("is_used", .bool o.isUsed)]

instance : ToJson TxOutput := ⟨toJson⟩
instance : FromJson TxOutput := ⟨ofJson⟩

end TxOutput

namespace ReferencedOutput

/-- The fields of an output with its reference. -/
def form : Json.ObjectForm Draft ReferencedOutput where
  fields := [
    { name := "input", read := fun d j => return { d with ref := some (← OutputRef.ofJson j) } },
    { name := "output", read := fun d j => return { d with output := some (← TxOutput.ofJson j) } }]
  empty := {}
  finish d := return ⟨← Json.need "input" d.ref, ← Json.need "output" d.output⟩

/-- Reads the value from JSON. -/
def ofJson : Json.Decoder ReferencedOutput := form.decode

/-- The JSON form of the value. -/
def toJson (o : ReferencedOutput) : Json :=
  .obj [("input", o.ref.toJson), ("output", o.output.toJson)]

instance : ToJson ReferencedOutput := ⟨toJson⟩
instance : FromJson ReferencedOutput := ⟨ofJson⟩

end ReferencedOutput

namespace Tx

/-- The fields of a transaction. -/
def form : Json.ObjectForm Draft Tx where
  fields := [
    { name := "block_slot", read := fun d j => return { d with blockSlot := some (← Json.uint64 j) } },
    { name := "block_hash", read := fun d j => return { d with blockHash := some (← Hash.ofJson j) } },
    { name := "index_in_block",
      read := fun d j => return { d with indexInBlock := some (← Json.uint32 j) } },
    { name := "hash", read := fun d j => return { d with hash := some (← Hash.ofJson j) } },
    { name := "era_id", read := fun d j => return { d with eraId := some (← Json.uint8 j) } },
    { name := "metadata",
      read := fun d j => return { d with metadata := ← Json.optional Json.octets j } },
    { name := "fee", read := fun d j => return { d with fee := some (← Json.uint64 j) } },
    { name := "is_valid", read := fun d j => return { d with isValid := some (← Json.boolean j) } },
    { name := "inputs",
      read := fun d j => return { d with inputs := some (← Json.array ReferencedOutput.ofJson j) } },
    { name := "outputs",
      read := fun d j => return { d with outputs := some (← Json.array TxOutput.ofJson j) } },
    { name := "first_output_index",
      read := fun d j => return { d with firstOutputIndex := some (← Json.uint32 j) } }]
  empty := {}
  finish d := return {
    blockSlot := ← Json.need "block_slot" d.blockSlot
    blockHash := ← Json.need "block_hash" d.blockHash
    indexInBlock := ← Json.need "index_in_block" d.indexInBlock
    hash := ← Json.need "hash" d.hash
    eraId := ← Json.need "era_id" d.eraId
    metadata := d.metadata
    fee := ← Json.need "fee" d.fee
    isValid := ← Json.need "is_valid" d.isValid
    inputs := ← Json.need "inputs" d.inputs
    outputs := ← Json.need "outputs" d.outputs
    firstOutputIndex := ← Json.need "first_output_index" d.firstOutputIndex }

/-- Reads the value from JSON. -/
def ofJson : Json.Decoder Tx := form.decode

/-- The JSON form of the value. -/
def toJson (tx : Tx) : Json :=
  .obj [("block_slot", .nat tx.blockSlot.toNat), ("block_hash", tx.blockHash.toJson),
    ("index_in_block", .nat tx.indexInBlock.toNat), ("hash", tx.hash.toJson),
    ("era_id", .nat tx.eraId.toNat), ("metadata", .opt (tx.metadata.map octetsToJson)),
    ("fee", .nat tx.fee.toNat), ("is_valid", .bool tx.isValid),
    ("inputs", .arr (tx.inputs.map ReferencedOutput.toJson)),
    ("outputs", .arr (tx.outputs.map TxOutput.toJson)),
    ("first_output_index", .nat tx.firstOutputIndex.toNat)]

instance : ToJson Tx := ⟨toJson⟩
instance : FromJson Tx := ⟨ofJson⟩

end Tx

end ChainIndex
