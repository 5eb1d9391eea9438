import ChainIndex.Hash

/-!
# Transactions and their outputs

* `OutputRef`: the hash of a transaction and the index of one of its outputs.
* `TokenAmount`: a quantity of a native token. `TokenAmount.sameAsset` forgets the quantity.
* `TxOutput`: an output as the store keeps it. The default value stands for an output that is not
  known (`TxOutput.isUnknown`).
* `ReferencedOutput`: an output under the reference that names it; `ReferencedOutput.sort` is the
  order of listings.
* `Tx`: a transaction of a block. `outputs` are those that it creates on chain: a transaction that
  failed in its second phase creates only its collateral return, which stands after the body outputs;
  so `firstOutputIndex` says where the list begins. `Tx.produced`: the outputs, each under its on-chain
  reference.
* `OutputRef.Draft`, `TokenAmount.Draft`, `TxOutput.Draft`, `ReferencedOutput.Draft`, `Tx.Draft`: the
  fields of a record that a reader has met so far.
-/

namespace ChainIndex

/-! ## References to outputs -/

/-- The name of an output: who produced it, and at which index. -/
structure OutputRef where
  hash : TxHash
  index : UInt32
deriving DecidableEq, Inhabited

/-- A reference in words. -/
def OutputRef.describe (r : OutputRef) : String :=
  r.hash.toHex ++ "#" ++ toString r.index

/-! ## Outputs -/

/-- A quantity of a native token. -/
structure TokenAmount where
  policyId : Bytes
  assetName : Bytes
  amount : UInt64
deriving DecidableEq, Inhabited

/-- Whether two amounts are of one asset, whatever the quantities. -/
def TokenAmount.sameAsset (a b : TokenAmount) : Bool :=
  a.policyId == b.policyId && a.assetName == b.assetName

/-- An output: `slot` is that of the producing block, `amount` is in lovelace, `datum` is the inline
datum as raw CBOR, and `isUsed` marks one that was spent and kept. -/
structure TxOutput where
  slot : UInt64 := 0
  address : String := ""
  amount : UInt64 := 0
  tokens : List TokenAmount := []
  datum : Option Bytes := none
  datumHash : Option DatumHash := none
  isUsed : Bool := false
deriving DecidableEq, Inhabited

namespace TxOutput

/-- The output that stands for one that is not known. -/
def unknown : TxOutput := {}

/-- An output without an address was not found. -/
def isUnknown (o : TxOutput) : Bool := o.address.isEmpty

/-- Equality up to the quantities of tokens. -/
def sameAssets (a b : TxOutput) : Bool :=
  a.slot == b.slot && a.address == b.address && a.amount == b.amount &&
    a.tokens.length == b.tokens.length &&
    (a.tokens.zip b.tokens).all (fun (s, t) => s.sameAsset t) &&
    a.datum == b.datum && a.datumHash == b.datumHash && a.isUsed == b.isUsed

end TxOutput

/-- An output together with the reference that names it. -/
structure ReferencedOutput where
  ref : OutputRef
  output : TxOutput
deriving DecidableEq, Inhabited

namespace ReferencedOutput

/-- A reference whose output has not been looked up yet. -/
def unresolved (ref : OutputRef) : ReferencedOutput := ⟨ref, .unknown⟩

/-- Equality up to the quantities of tokens. -/
def sameAssets (a b : ReferencedOutput) : Bool :=
  a.ref == b.ref && a.output.sameAssets b.output

/-- The order of listings: producing slot, then hash, then index. -/
def le (a b : ReferencedOutput) : Bool :=
  if a.output.slot ≠ b.output.slot then a.output.slot < b.output.slot
  else if a.ref.hash ≠ b.ref.hash then a.ref.hash < b.ref.hash
  else a.ref.index ≤ b.ref.index

/-- The outputs in the order of listings; outputs that compare equal keep their order. -/
def sort (outputs : List ReferencedOutput) : List ReferencedOutput :=
  outputs.mergeSort le

end ReferencedOutput

/-! ## Transactions -/

/-- A transaction as the index keeps it. -/
structure Tx where
  blockSlot : UInt64
  blockHash : BlockHash
  indexInBlock : UInt32
  hash : TxHash
  eraId : UInt8
  /-- Auxiliary data, raw CBOR. -/
  metadata : Option Bytes
  fee : UInt64
  isValid : Bool
  /-- Spent outputs; what they held is looked up when the block is confirmed. -/
  inputs : List ReferencedOutput
  outputs : List TxOutput
  firstOutputIndex : UInt32
deriving DecidableEq, Inhabited

namespace Tx

/-- The reference of the output at an index. -/
def outputRef (tx : Tx) (index : UInt32) : OutputRef := ⟨tx.hash, index⟩

/-- Outputs that follow each other on chain, under their references. -/
def refsFrom (hash : TxHash) : UInt32 → List TxOutput → List ReferencedOutput
  | _, [] => []
  | index, output :: rest => ⟨⟨hash, index⟩, output⟩ :: refsFrom hash (index + 1) rest

/-- The outputs that a transaction creates, under their references. -/
def produced (tx : Tx) : List ReferencedOutput :=
  refsFrom tx.hash tx.firstOutputIndex tx.outputs

/-- Equality up to the quantities of tokens. -/
def sameAssets (a b : Tx) : Bool :=
  a.blockSlot == b.blockSlot && a.blockHash == b.blockHash && a.indexInBlock == b.indexInBlock &&
    a.hash == b.hash && a.eraId == b.eraId && a.metadata == b.metadata && a.fee == b.fee &&
    a.isValid == b.isValid &&
    a.inputs.length == b.inputs.length &&
    (a.inputs.zip b.inputs).all (fun (s, t) => s.sameAssets t) &&
    a.outputs.length == b.outputs.length &&
    (a.outputs.zip b.outputs).all (fun (s, t) => s.sameAssets t) &&
    a.firstOutputIndex == b.firstOutputIndex

end Tx

/-! ## Records being read -/

/-- The fields of a reference met so far. -/
structure OutputRef.Draft where
  hash : Option TxHash := none
  index : Option UInt32 := none

/-- The fields of an amount met so far. -/
structure TokenAmount.Draft where
  policyId : Option Bytes := none
  assetName : Option Bytes := none
  amount : Option UInt64 := none

/-- The fields of an output met so far. -/
structure TxOutput.Draft where
  slot : Option UInt64 := none
  address : Option String := none
  amount : Option UInt64 := none
  tokens : Option (List TokenAmount) := none
  datum : Option Bytes := none
  datumHash : Option DatumHash := none
  isUsed : Option Bool := none

/-- The fields met so far. -/
structure ReferencedOutput.Draft where
  ref : Option OutputRef := none
  output : Option TxOutput := none

/-- The fields of a transaction met so far. -/
structure Tx.Draft where
  blockSlot : Option UInt64 := none
  blockHash : Option BlockHash := none
  indexInBlock : Option UInt32 := none
  hash : Option TxHash := none
  eraId : Option UInt8 := none
  metadata : Option Bytes := none
  fee : Option UInt64 := none
  isValid : Option Bool := none
  inputs : Option (List ReferencedOutput) := none
  outputs : Option (List TxOutput) := none
  firstOutputIndex : Option UInt32 := none

end ChainIndex
