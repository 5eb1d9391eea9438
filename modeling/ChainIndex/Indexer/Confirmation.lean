import ChainIndex.Indexer.Config
import ChainIndex.Ledger.Tx
import ChainIndex.Storage.Batch

/-!
# Confirmations

* `resolveInputs`: the transactions of a block with the outputs that they spend filled in: from the
  earlier transactions of the block, and else by a given look-up. Inputs that are filled in already stay
  as they are.
* `Confirmation`: what a block with looked-up transactions contributes to the store: its record, the
  transactions that are followed, the outputs to save and those to spend.
* `Confirmation.ops`: the changes in the order in which they are carried out. All outputs are saved
  before any is spent.
-/

namespace ChainIndex

/-! ## Looking up spent outputs -/

variable {ε : Type}

/-- The output under a reference among outputs of the block, the latest first. -/
def producedOutput? (produced : List ReferencedOutput) (ref : OutputRef) : Option TxOutput :=
  (produced.find? fun o => o.ref == ref).map (·.output)

/-- One input with its output. -/
def resolveInput (lookup : OutputRef → Except ε TxOutput) (produced : List ReferencedOutput)
    (input : ReferencedOutput) : Except ε ReferencedOutput :=
  if input.output.isUnknown then
    match producedOutput? produced input.ref with
    | some output => .ok { input with output }
    | none => return { input with output := ← lookup input.ref }
  else .ok input

/-- Transactions in block order with their spent outputs; `produced` are the outputs of those before
them, the latest first. -/
def resolveFrom (lookup : OutputRef → Except ε TxOutput) :
    (produced : List ReferencedOutput) → List Tx → Except ε (List Tx)
  | _, [] => .ok []
  | produced, tx :: rest => do
    let inputs ← tx.inputs.mapM (resolveInput lookup produced)
    let rest ← resolveFrom lookup (tx.produced.reverse ++ produced) rest
    return { tx with inputs } :: rest

/-- The transactions of a block with their spent outputs. -/
def resolveInputs (lookup : OutputRef → Except ε TxOutput) (txs : List Tx) :
    Except ε (List Tx) :=
  resolveFrom lookup [] txs

/-! ## Contributions of blocks -/

/-- What a block contributes. -/
structure Confirmation where
  block : ConfirmedBlock
  /-- The transactions that are followed. -/
  txs : List Tx
  /-- The outputs to save. -/
  saved : List ReferencedOutput
  /-- The outputs to spend. -/
  spent : List OutputRef
deriving DecidableEq

namespace Confirmation

/-- The outputs of a transaction that are kept, with the slot of their block. -/
def savedOutputs (c : IndexerConfig) (slot : UInt64) (tx : Tx) : List ReferencedOutput :=
  (tx.produced.filter fun o => c.keepsAddress o.output.address).map fun o =>
    { o with output := { o.output with slot } }

/-- The outputs of kept addresses that a transaction spends. -/
def spentOutputs (c : IndexerConfig) (tx : Tx) : List OutputRef :=
  (tx.inputs.filter fun io => c.keepsAddress io.output.address).map (·.ref)

/-- What the block of a header contributes, given its transactions with their inputs looked up. -/
def ofBlock (c : IndexerConfig) (header : BlockHeader) (txs : List Tx) : Confirmation :=
  let relevant := txs.filter c.isRelevant
  let stored := if c.keepAllOutputs then txs else relevant
  let hashed := if c.keepAllHashes then txs else relevant
  { block := .ofHeader header (hashed.map (·.hash))
    txs := relevant
    saved := stored.flatMap (savedOutputs c header.slot)
    spent := stored.flatMap (spentOutputs c) }

/-- The changes that a confirmation makes, in order. -/
def ops (soft : Bool) (c : Confirmation) : List BatchOp :=
  [.addTxs c.txs, .addBlock c.block, .setLatestPoint c.block.point, .addOutputs c.saved,
    .removeOutputs c.spent soft]

end Confirmation

end ChainIndex
