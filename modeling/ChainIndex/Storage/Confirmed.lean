import ChainIndex.Storage.Batch
import ChainIndex.Storage.Cursor

/-!
# Confirmed data

The queries of the store, each one reading scope:

* `latestPoint?` and `txOutput`: single records.
* `latestBlocks` and `blocksFrom`: confirmed blocks by slot, newest or oldest first.
* `unprocessedTxs` and `processedTxs`: transactions by block and position.
* `outputsAt`: the outputs that pay to an address.

`markProcessed` moves transactions from the unprocessed to the processed ones.
-/

namespace ChainIndex.Database

/-- The point of the block that was confirmed last. -/
def latestPoint? (db : Database) : Except StoreError (Option Point) :=
  db.view do
    match ← View.get .latestPoint Key.latestPoint with
    | some bytes => return some (← View.record bytes)
    | none => return none

/-- The stored output under a reference; the unknown output if there is none. -/
def txOutput (db : Database) (ref : OutputRef) : Except StoreError TxOutput :=
  db.view do
    match ← View.get .utxos ref.key with
    | some (byte :: bytes) => View.record (byte :: bytes)
    | _ => return .unknown

/-- Reads blocks from the current entry on, at most `max` of them, moving by `move`. -/
def takeBlocks (move : Cursor → View StoreError (Option Entry × Cursor)) :
    (max : Nat) → Option Entry → Cursor → View StoreError (List ConfirmedBlock)
  | 0, _, _ => return []
  | _ + 1, none, _ => return []
  | max + 1, some (_, value), cursor => do
    let block ← View.record value
    let (entry, cursor) ← move cursor
    return block :: (← takeBlocks move max entry cursor)

/-- The last confirmed blocks, newest first. -/
def latestBlocks (db : Database) (max : Nat) : Except StoreError (List ConfirmedBlock) :=
  db.view do
    let (entry, cursor) ← Cursor.last ⟨.confirmedBlocks, none⟩
    takeBlocks Cursor.prev max entry cursor

/-- The confirmed blocks from a slot on, oldest first. -/
def blocksFrom (db : Database) (slot : UInt64) (max : Nat) :
    Except StoreError (List ConfirmedBlock) :=
  db.view do
    let (entry, cursor) ← Cursor.seek ⟨.confirmedBlocks, none⟩ (Key.ofSlot slot)
    takeBlocks Cursor.next max entry cursor

/-- The first transactions of a bucket. -/
def firstTxs (db : Database) (bucket : Bucket) (max : Nat) : Except StoreError (List Tx) :=
  db.view do
    if max = 0 then return []
    let (_, reversed) ← View.scan bucket .all .ascending (0, []) fun (count, txs) (_, value) => do
      let tx : Tx ← readRecord value
      return ((count + 1, tx :: txs), count + 1 < max)
    return reversed.reverse

/-- The first transactions that are not marked as processed. -/
def unprocessedTxs (db : Database) (max : Nat) : Except StoreError (List Tx) :=
  db.firstTxs .unprocessedTxs max

/-- The first transactions that are marked as processed. -/
def processedTxs (db : Database) (max : Nat) : Except StoreError (List Tx) :=
  db.firstTxs .processedTxs max

/-- Moves transactions to the processed ones, all or none. -/
def markProcessed (db : Database) (txs : List Tx) : Except StoreError Unit × Database :=
  if txs.isEmpty then (.ok (), db)
  else
    db.update do
      txs.forM fun tx => do
        Update.delete .unprocessedTxs tx.key
        Update.put .processedTxs tx.key (Cbor.Record.encode tx)

/-- Takes an entry into a listing of outputs, the latest first, unless it is to be left out. -/
def visitOutput (address : String) (onlyUnused : Bool) (found : List ReferencedOutput) :
    Entry → Except StoreError (List ReferencedOutput × Bool) := fun (key, value) => do
  let output : TxOutput ← readRecord value
  if output.address ≠ address || (onlyUnused && output.isUsed) then return (found, true)
  match Key.toRef key with
  | .ok ref => return (⟨ref, output⟩ :: found, true)
  | .error _ => throw (.invalidKey .utxos key.length)

/-- Every stored output that pays to an address, with `onlyUnused` those that are not used, in the order
of listings. -/
def outputsAt (db : Database) (address : String) (onlyUnused : Bool) :
    Except StoreError (List ReferencedOutput) := do
  let reversed ← db.view <|
    View.scan .utxos .all .ascending [] (visitOutput address onlyUnused)
  return ReferencedOutput.sort reversed.reverse

end ChainIndex.Database
