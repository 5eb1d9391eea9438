import ChainIndex.Ledger.Cbor
import ChainIndex.Storage.Key
import ChainIndex.Storage.Scope

/-!
# Batches

* `BatchOp`: a change to the store in the words of the index.
* `BatchWriter`: changes that wait. Nothing reaches the store before `BatchWriter.execute`, which applies
  them in order in one scope and leaves the writer empty, whatever comes of it.
-/

namespace ChainIndex

/-- A change to the confirmed data. -/
inductive BatchOp where
  | setLatestPoint (point : Point)
  | addOutputs (outputs : List ReferencedOutput)
  /-- Deletes outputs, or with `soft` marks those that are stored as used. -/
  | removeOutputs (refs : List OutputRef) (soft : Bool)
  | addBlock (block : ConfirmedBlock)
  /-- Records transactions as unprocessed. -/
  | addTxs (txs : List Tx)
  | deleteAllOutputs
deriving DecidableEq

namespace BatchOp

variable {ε : Type} [ScopeError ε]

/-- Marks a stored output as used; one that is not stored is passed over. -/
def markUsed (ref : OutputRef) : Update ε Unit := do
  match ← Update.get .utxos ref.key with
  | none => return
  | some bytes =>
    let output : TxOutput ← Update.record bytes
    Update.put .utxos ref.key (Cbor.Record.encode { output with isUsed := true })

/-- Carries out one change inside a scope. -/
def apply : BatchOp → Update ε Unit
  | setLatestPoint point => Update.put .latestPoint Key.latestPoint (Cbor.Record.encode point)
  | addOutputs outputs =>
    outputs.forM fun o => Update.put .utxos o.ref.key (Cbor.Record.encode o.output)
  | removeOutputs refs soft =>
    refs.forM fun ref => if soft then markUsed ref else Update.delete .utxos ref.key
  | addBlock block => Update.put .confirmedBlocks block.key (Cbor.Record.encode block)
  | addTxs txs => txs.forM fun tx => Update.put .unprocessedTxs tx.key (Cbor.Record.encode tx)
  | deleteAllOutputs => Update.clear .utxos

end BatchOp

/-- Changes that wait to be carried out, oldest first. -/
structure BatchWriter where
  ops : List BatchOp := []
deriving DecidableEq

namespace BatchWriter

/-- No changes. -/
def empty : BatchWriter := {}

/-- One more change. -/
def push (w : BatchWriter) (op : BatchOp) : BatchWriter := ⟨w.ops ++ [op]⟩

/-- Whether no change waits. -/
def isEmpty (w : BatchWriter) : Bool := w.ops.isEmpty

/-- Carries out what waits in one scope. With nothing to do the store is not touched. -/
def execute (w : BatchWriter) (db : Database) :
    Except StoreError Unit × BatchWriter × Database :=
  if w.isEmpty then (.ok (), empty, db)
  else
    let (result, db) := db.update (w.ops.forM BatchOp.apply)
    (result, empty, db)

end BatchWriter

end ChainIndex
