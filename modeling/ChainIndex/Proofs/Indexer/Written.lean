import ChainIndex.Indexer.Confirmation
import ChainIndex.Proofs.Storage.Direct

/-!
# What a confirmation writes besides outputs

* `Confirmation.Written`: the other four buckets after the changes of a confirmation: the point and the record of
  the block, the followed transactions as unprocessed, and nothing among the processed ones
  (`Confirmation.ops_written`).
-/

namespace ChainIndex

/-- Transactions under their keys, on top of what is there. -/
def KeyMap.insertTxs (m : KeyMap Bytes) (txs : List Tx) : KeyMap Bytes :=
  txs.foldl (fun m tx => m.insert tx.key (Cbor.Record.encode tx)) m

theorem KeyMap.insertTxs_append (m : KeyMap Bytes) (txs later : List Tx) :
    m.insertTxs (txs ++ later) = (m.insertTxs txs).insertTxs later := List.foldl_append

theorem KeyMap.get?_insertTxs_of_notMem {m : KeyMap Bytes} {txs : List Tx} {key : Bytes}
    (h : key ∉ txs.map Tx.key) : (m.insertTxs txs).get? key = m.get? key := by
  induction txs generalizing m with
  | nil => rfl
  | cons tx txs ih =>
    obtain ⟨ne, rest⟩ := List.ne_and_not_mem_of_not_mem_cons h
    exact (ih rest).trans ((get?_insert ..).trans (if_neg ne))

/-- Transactions with different keys are all there. -/
theorem KeyMap.get?_insertTxs_of_mem {m : KeyMap Bytes} {txs : List Tx} {tx : Tx}
    (distinct : (txs.map Tx.key).Nodup) (h : tx ∈ txs) :
    (m.insertTxs txs).get? tx.key = some (Cbor.Record.encode tx) := by
  induction txs generalizing m with
  | nil => cases h
  | cons first txs ih =>
    obtain ⟨absent, distinct⟩ := List.nodup_cons.1 distinct
    rcases List.mem_cons.1 h with rfl | h
    · exact (get?_insertTxs_of_notMem absent).trans ((get?_insert ..).trans (if_pos rfl))
    · exact ih distinct h

theorem Contents.get_put (c : Contents) (bucket : Bucket) (key value : Bytes) :
    (c.perform (.put bucket key value)).get bucket = (c.get bucket).insert key value :=
  (Buckets.get_set ..).trans (if_pos rfl)

namespace Confirmation

/-- The buckets without outputs, before and after the changes of a confirmation. -/
structure Written (conf : Confirmation) (c c' : Contents) : Prop where
  latestPoint : c'.get .latestPoint =
    (c.get .latestPoint).insert Key.latestPoint (Cbor.Record.encode conf.block.point)
  unprocessedTxs : c'.get .unprocessedTxs = (c.get .unprocessedTxs).insertTxs conf.txs
  processedTxs : c'.get .processedTxs = c.get .processedTxs
  confirmedBlocks : c'.get .confirmedBlocks =
    (c.get .confirmedBlocks).insert conf.block.key (Cbor.Record.encode conf.block)

/-- The changes of a confirmation that are carried out with success. -/
theorem ops_written {conf : Confirmation} {soft : Bool} {c c' : Contents}
    (h : ((conf.ops soft).forM BatchOp.direct : Direct StoreError Unit) c = .ok ((), c')) :
    conf.Written c c' := by
  obtain ⟨_, c₁, txs, h⟩ := Direct.bind_eq_ok.1 h
  obtain ⟨_, c₂, block, h⟩ := Direct.bind_eq_ok.1 h
  obtain ⟨_, c₃, point, h⟩ := Direct.bind_eq_ok.1 h
  obtain ⟨_, c₄, saved, h⟩ := Direct.bind_eq_ok.1 h
  obtain ⟨_, c₅, spent, h⟩ := Direct.bind_eq_ok.1 h
  cases h
  have beforeTxs : ∀ b, b ≠ .unprocessedTxs → c₁.get b = c.get b := fun b ne =>
    BatchOp.get_of_direct txs ne
  have beforeBlock : ∀ b, b ≠ .confirmedBlocks → c₂.get b = c₁.get b := fun b ne =>
    BatchOp.get_of_direct block ne
  have beforePoint : ∀ b, b ≠ .latestPoint → c₃.get b = c₂.get b := fun b ne =>
    BatchOp.get_of_direct point ne
  have beforeOutputs : ∀ b, b ≠ .utxos → c'.get b = c₃.get b := fun b ne =>
    (BatchOp.get_of_direct spent ne).trans (BatchOp.get_of_direct saved ne)
  refine ⟨?_, ?_, ?_, ?_⟩ <;> rw [beforeOutputs _ (by decide)]
  · cases point
    rw [Contents.get_put, beforeBlock _ (by decide), beforeTxs _ (by decide)]
  · rw [beforePoint _ (by decide), beforeBlock _ (by decide)]
    refine Direct.forM_ok (fun m c => Buckets.get c .unprocessedTxs = m)
      (fun m tx => m.insert tx.key (Cbor.Record.encode tx)) ?_ _ rfl txs
    rintro tx - m c d rfl hd
    cases hd
    exact c.get_put ..
  · rw [beforePoint _ (by decide), beforeBlock _ (by decide), beforeTxs _ (by decide)]
  · rw [beforePoint _ (by decide)]
    cases block
    rw [Contents.get_put, beforeTxs _ (by decide)]

end Confirmation

end ChainIndex
