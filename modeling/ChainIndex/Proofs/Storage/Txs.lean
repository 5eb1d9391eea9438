import ChainIndex.Proofs.Storage.Blocks
import ChainIndex.Proofs.Storage.Intact

/-!
# Stored transactions in the order of their keys

* `StoredTxs bucket txs c`: the transactions and nothing else are stored in a bucket. Of a store whose every
  entry can be read this holds of some transactions (`Contents.Intact.exists_storedTxs`).
* `StoredTxs.firstTxs`: the queries find the first ones of them.
* `Contents.Intact.exists_storedBlocks`: likewise, some blocks and nothing else are stored.
* `Utxos.StoredIn.txOutput_eq`: the output that a query finds.
-/

namespace ChainIndex

/-- How a transaction is stored. -/
def Tx.entry (tx : Tx) : Entry := (tx.key, Cbor.Record.encode tx)

/-- The transactions and nothing else are stored in the bucket, in the order of their keys. -/
structure StoredTxs (bucket : Bucket) (txs : List Tx) (c : Contents) : Prop where
  entries : (c.get bucket).entries = txs.map Tx.entry
  storable : ∀ tx ∈ txs, tx.Storable

namespace Contents.Intact

variable {c : Contents}

theorem exists_storedTxs (intact : c.Intact) {bucket : Bucket}
    (txs : bucket = .unprocessedTxs ∨ bucket = .processedTxs) : ∃ stored, StoredTxs bucket stored c := by
  have holds : ∀ e ∈ (c.get bucket).entries, ∃ tx : Tx, tx.Storable ∧ e = tx.entry := by
    rintro ⟨key, value⟩ he
    have entry := intact bucket key value (KeyMap.get?_eq_some_iff.2 he)
    obtain ⟨tx, storable, rfl, rfl⟩ : ∃ tx : Tx, tx.Storable ∧ key = tx.key ∧
        value = Cbor.Record.encode tx := by
      obtain rfl | rfl := txs <;> exact entry
    exact ⟨tx, storable, rfl⟩
  obtain ⟨stored, entries, storable⟩ := exists_eq_map holds
  exact ⟨stored, entries, storable⟩

theorem exists_storedBlocks (intact : c.Intact) : ∃ stored, StoredBlocks stored c := by
  have holds : ∀ e ∈ (c.get .confirmedBlocks).entries, ∃ b : ConfirmedBlock, b.Storable ∧ e = b.entry := by
    rintro ⟨key, value⟩ he
    obtain ⟨b, storable, rfl, rfl⟩ := intact .confirmedBlocks key value (KeyMap.get?_eq_some_iff.2 he)
    exact ⟨b, storable, rfl⟩
  obtain ⟨stored, entries, storable⟩ := exists_eq_map holds
  exact ⟨stored, entries, storable⟩

end Contents.Intact

/-- A block that is stored is the first one from its slot on. -/
theorem StoredBlocks.blocksFrom_one {blocks : List ConfirmedBlock} {db : Database}
    (h : StoredBlocks blocks db.contents) (sound : db.Sound) {b : ConfirmedBlock} (hb : b ∈ blocks) :
    db.blocksFrom b.slot 1 = .ok [b] := by
  obtain ⟨front, rest, rfl⟩ := List.append_of_mem hb
  obtain ⟨-, behind, before⟩ := List.pairwise_append.1 h.rising
  have earlier : front.filter (b.slot ≤ ·.slot) = [] := List.filter_eq_nil_iff.2 fun a ha => by
    simpa using before a ha b List.mem_cons_self
  rw [h.blocksFrom sound, List.filter_append, earlier, List.nil_append,
    List.filter_cons_of_pos (by simp)]
  rfl

/-- The output that is found under a reference in a sound database. -/
theorem Utxos.StoredIn.txOutput_eq {m : Utxos} {db : Database} (h : m.StoredIn db.contents)
    (sound : db.Sound) (r : OutputRef) : db.txOutput r = .ok ((m r).getD .unknown) := by
  have get : (View.get .utxos r.key : View StoreError _) db.engine =
      .ok ((m r).map Cbor.Record.encode) := by
    rw [View.get, Engine.get, sound.never, ← h.lookup_eq]
    rfl
  rw [Database.txOutput, sound.view_eq]
  refine View.bind_eq_ok.2 ⟨_, get, ?_⟩
  cases hm : m r with
  | none => rfl
  | some o =>
    have read : (View.record (Cbor.Record.encode o) : View StoreError TxOutput) db.engine = .ok o := by
      rw [View.record, readRecord, TxOutput.decode_encode (h.storable r o hm)]
    rw [Option.map_some]
    cases hb : Cbor.Record.encode o with
    | nil => exact absurd hb (TxOutput.encode_ne_nil o)
    | cons byte bytes =>
      rw [hb] at read
      exact read

namespace StoredTxs

variable {bucket : Bucket} {txs : List Tx} {c : Contents}

theorem filed (h : StoredTxs bucket txs c) : Filed bucket Tx.key txs c := by
  rw [Filed, h.entries, List.forall₂_map_left_iff, List.forall₂_same]
  exact fun tx htx => ⟨rfl, Tx.decode_encode (h.storable tx htx)⟩

theorem ordered (h : StoredTxs bucket txs c) : txs.Pairwise fun a b => a.key < b.key := h.filed.ascending

theorem mem_iff (h : StoredTxs bucket txs c) {tx : Tx} (storable : tx.Storable) :
    tx ∈ txs ↔ c.lookup bucket tx.key = some (Cbor.Record.encode tx) := by
  rw [Contents.lookup, KeyMap.get?_eq_some_iff, h.entries, List.mem_map]
  constructor
  · exact fun mem => ⟨tx, mem, rfl⟩
  · rintro ⟨tx', mem, same⟩
    exact Tx.encode_inj (h.storable tx' mem) storable (Prod.mk.inj same).2 ▸ mem

/-- The first transactions. -/
theorem firstTxs {db : Database} (h : StoredTxs bucket txs db.contents) (sound : db.Sound) (max : Nat) :
    db.firstTxs bucket max = .ok (txs.take max) := h.filed.firstTxs sound max

end StoredTxs

end ChainIndex
