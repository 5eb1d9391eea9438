import ChainIndex.Proofs.Indexer.Undisturbed
import ChainIndex.Proofs.Indexer.Unspent

/-!
# What processed blocks leave in the store

* `contributions`: what blocks contribute to a store that was empty, one after the other, as a function of the
  blocks. Each one finds the outputs that those before it have left (`outputsAfter`).
* `Contents.Replayed blocks c`: the blocks are recorded in order, the latest point is that of the last one,
  their followed transactions are processed and none is unprocessed, and the outputs are those after them.
  There are no other such contents (`Contents.Replayed.unique`).
* `Contents.Replayed.confirm`: over such contents one more block is confirmed with success, and once its
  transactions are marked the contents are those with the block.
-/

namespace ChainIndex

/-! ## What blocks contribute -/

namespace SourceBlock

/-- What a block contributes over stored outputs. -/
def confirmation (config : IndexerConfig) (m : Utxos) (b : SourceBlock) : Confirmation :=
  .ofBlock config b.header (filled m b.txs)

/-- The outputs that a block leaves. -/
def outputsAfter (config : IndexerConfig) (m : Utxos) (b : SourceBlock) : Utxos :=
  m.confirmed config b.header.slot
    (if config.keepAllOutputs then filled m b.txs else (filled m b.txs).filter config.isRelevant)

/-- The transactions bear the slot of the block, stand in the order of their positions, and can be stored. -/
structure Orderly (b : SourceBlock) : Prop where
  slot : ∀ tx ∈ b.txs, tx.blockSlot = b.header.slot
  positions : b.txs.Pairwise fun tx later => tx.indexInBlock < later.indexInBlock
  storable : ∀ tx ∈ b.txs, tx.Storable

end SourceBlock

/-- The outputs that blocks leave where none were. -/
def outputsAfter (config : IndexerConfig) (blocks : List SourceBlock) : Utxos :=
  blocks.foldl (SourceBlock.outputsAfter config) fun _ => none

/-- What blocks contribute where no outputs were, one after the other. -/
def contributions (config : IndexerConfig) (blocks : List SourceBlock) : List Confirmation :=
  blocks.mapIdx fun i b => b.confirmation config (outputsAfter config (blocks.take i))

variable {config : IndexerConfig} {blocks : List SourceBlock} {b : SourceBlock} {c c' : Contents}

theorem contributions_append_singleton (blocks : List SourceBlock) (b : SourceBlock) :
    contributions config (blocks ++ [b]) =
      contributions config blocks ++ [b.confirmation config (outputsAfter config blocks)] := by
  rw [contributions, contributions, List.mapIdx_append]
  congr 1
  · refine List.mapIdx_eq_mapIdx_iff.2 fun i hi => ?_
    rw [List.take_append_of_le_length (Nat.le_of_lt hi)]
  · simp

theorem exists_of_mem_contributions {conf : Confirmation} (h : conf ∈ contributions config blocks) :
    ∃ b ∈ blocks, ∃ m, conf = b.confirmation config m := by
  obtain ⟨i, hi, rfl⟩ := List.mem_mapIdx.1 h
  exact ⟨blocks[i], List.getElem_mem hi, _, rfl⟩

/-- Filling in inputs leaves the keys. -/
theorem map_key_filled (m : Utxos) (txs : List Tx) : (filled m txs).map Tx.key = txs.map Tx.key := by
  refine List.ext_getElem (by simp [filled]) fun i _ _ => ?_
  simp only [filled, List.getElem_map, List.getElem_mapIdx]
  rfl

namespace SourceBlock.Orderly

/-- What a block contributes has keys in order. -/
theorem ordered (h : b.Orderly) (m : Utxos) :
    (b.confirmation config m).txs.Pairwise fun tx later => tx.key < later.key := by
  have keys : (b.txs.map Tx.key).Pairwise (· < ·) := by
    refine List.pairwise_map.2 (h.positions.imp_of_mem fun {tx later} htx hlater lt => ?_)
    exact Tx.key_lt_iff.2 (.inr ⟨(h.slot tx htx).trans (h.slot later hlater).symm, lt⟩)
  rw [← map_key_filled m, List.pairwise_map] at keys
  exact keys.filter _

theorem slot_of_mem (h : b.Orderly) {m : Utxos} {tx : Tx}
    (htx : tx ∈ (b.confirmation config m).txs) : tx.blockSlot = b.header.slot := by
  have key : tx.key ∈ b.txs.map Tx.key := by
    rw [← map_key_filled m]
    exact List.mem_map_of_mem (List.mem_filter.1 htx).1
  obtain ⟨tx', htx', same⟩ := List.mem_map.1 key
  exact (Tx.key_inj same).1.symm.trans (h.slot tx' htx')

theorem distinct (h : b.Orderly) : (b.txs.map (·.indexInBlock)).Nodup :=
  List.pairwise_map.2 (h.positions.imp UInt32.ne_of_lt)

end SourceBlock.Orderly

/-! ## Entries -/

/-- Transactions in the order of their keys, behind all entries, come last. -/
theorem KeyMap.entries_insertTxs_last {m : KeyMap Bytes} {txs : List Tx}
    (ordered : txs.Pairwise fun tx later => tx.key < later.key)
    (behind : ∀ e ∈ m.entries, ∀ tx ∈ txs, e.1 < tx.key) :
    (m.insertTxs txs).entries = m.entries ++ txs.map Tx.entry := by
  induction txs generalizing m with
  | nil => simp [insertTxs]
  | cons tx txs ih =>
    obtain ⟨first, rest⟩ := List.pairwise_cons.1 ordered
    have inserted := entries_insert_last (Cbor.Record.encode tx) fun e he =>
      behind e he tx List.mem_cons_self
    have later : ∀ e ∈ (m.insert tx.key (Cbor.Record.encode tx)).entries,
        ∀ tx' ∈ txs, e.1 < tx'.key := by
      rw [inserted, List.forall_mem_append, List.forall_mem_singleton]
      exact ⟨fun e he tx' htx' => behind e he tx' (List.mem_cons_of_mem _ htx'), first⟩
    refine (ih rest later).trans ?_
    rw [inserted, List.append_assoc]
    rfl

/-! ## What is stored -/

namespace Contents

/-- What is stored once blocks were confirmed and their followed transactions processed, and nothing was
stored before. -/
structure Replayed (config : IndexerConfig) (blocks : List SourceBlock) (c : Contents) : Prop where
  latestPoint : ∀ key, c.lookup .latestPoint key =
    if key = Key.latestPoint then blocks.getLast?.map fun b => Cbor.Record.encode b.header.point else none
  confirmedBlocks : StoredBlocks ((contributions config blocks).map (·.block)) c
  processedTxs : StoredTxs .processedTxs ((contributions config blocks).flatMap (·.txs)) c
  unprocessedTxs : StoredTxs .unprocessedTxs [] c
  utxos : (ChainIndex.outputsAfter config blocks).StoredIn c

theorem Replayed.empty (config : IndexerConfig) : Replayed config [] .empty where
  latestPoint key := by split <;> rfl
  confirmedBlocks := ⟨rfl, nofun⟩
  processedTxs := ⟨rfl, nofun⟩
  unprocessedTxs := ⟨rfl, nofun⟩
  utxos := .empty rfl

namespace Replayed

theorem intact (h : Replayed config blocks c) : c.Intact := by
  have txs {bucket : Bucket} {txs : List Tx} (stored : StoredTxs bucket txs c) {key value : Bytes}
      (hl : c.lookup bucket key = some value) :
      ∃ tx : Tx, tx.Storable ∧ key = tx.key ∧ value = Cbor.Record.encode tx := by
    have entry := KeyMap.get?_eq_some_iff.1 hl
    rw [stored.entries] at entry
    obtain ⟨tx, htx, eq⟩ := List.mem_map.1 entry
    exact ⟨tx, stored.storable tx htx, (Prod.mk.inj eq).1.symm, (Prod.mk.inj eq).2.symm⟩
  intro bucket key value hl
  cases bucket with
  | utxos =>
    obtain ⟨r, rfl⟩ := h.utxos.key_eq key value hl
    rw [h.utxos.lookup_eq] at hl
    obtain ⟨o, ho, rfl⟩ := Option.map_eq_some_iff.1 hl
    exact ⟨r, o, h.utxos.storable r o ho, rfl, rfl⟩
  | latestPoint =>
    rw [h.latestPoint] at hl
    obtain ⟨rfl, hl⟩ := Option.ite_none_right_eq_some.1 hl
    obtain ⟨b, -, rfl⟩ := Option.map_eq_some_iff.1 hl
    exact ⟨b.header.point, rfl, rfl⟩
  | unprocessedTxs => exact txs h.unprocessedTxs hl
  | processedTxs => exact txs h.processedTxs hl
  | confirmedBlocks =>
    have entry := KeyMap.get?_eq_some_iff.1 hl
    rw [h.confirmedBlocks.entries] at entry
    obtain ⟨b, hb, eq⟩ := List.mem_map.1 entry
    exact ⟨b, h.confirmedBlocks.storable b hb, (Prod.mk.inj eq).1.symm, (Prod.mk.inj eq).2.symm⟩

/-- The latest point is that of the last block. -/
theorem latestPoint?_eq {db : Database} (h : Replayed config blocks db.contents) (sound : db.Sound) :
    db.latestPoint? = .ok (blocks.getLast?.map (·.header.point)) := by
  refine sound.latestPoint?_eq ((h.latestPoint Key.latestPoint).trans ?_)
  rw [if_pos rfl, Option.map_map]
  rfl

/-- The blocks determine what is stored. -/
theorem unique (h : Replayed config blocks c) (h' : Replayed config blocks c') : c = c' := by
  refine Buckets.ext_get fun bucket => ?_
  cases bucket with
  | utxos =>
    refine KeyMap.ext_get? fun key => Option.ext fun value => ?_
    constructor
    · intro hl
      obtain ⟨r, rfl⟩ := h.utxos.key_eq key value hl
      exact (h'.utxos.lookup_eq r).trans ((h.utxos.lookup_eq r).symm.trans hl)
    · intro hl
      obtain ⟨r, rfl⟩ := h'.utxos.key_eq key value hl
      exact (h.utxos.lookup_eq r).trans ((h'.utxos.lookup_eq r).symm.trans hl)
  | latestPoint =>
    exact KeyMap.ext_get? fun key => (h.latestPoint key).trans (h'.latestPoint key).symm
  | unprocessedTxs => exact KeyMap.eq_of_entries (h.unprocessedTxs.entries.trans h'.unprocessedTxs.entries.symm)
  | processedTxs => exact KeyMap.eq_of_entries (h.processedTxs.entries.trans h'.processedTxs.entries.symm)
  | confirmedBlocks =>
    exact KeyMap.eq_of_entries (h.confirmedBlocks.entries.trans h'.confirmedBlocks.entries.symm)

/-- No transaction is unprocessed. -/
theorem unprocessedTxs_eq (h : Replayed config blocks c) : c.get .unprocessedTxs = ∅ :=
  KeyMap.eq_of_entries h.unprocessedTxs.entries

/-- A later block comes behind all blocks that are stored. -/
theorem blocks_before (h : Replayed config blocks c)
    (later : ∀ a ∈ blocks, a.header.slot < b.header.slot) :
    ∀ e ∈ (c.get .confirmedBlocks).entries, e.1 < Key.ofSlot b.header.slot := by
  rw [h.confirmedBlocks.entries, List.map_map, List.forall_mem_map]
  intro before hbefore
  obtain ⟨a, ha, m, rfl⟩ := exists_of_mem_contributions hbefore
  exact Key.ofSlot_lt_iff.2 (later a ha)

/-- The transactions of a later block come behind all that are processed. -/
theorem txs_before (h : Replayed config blocks c) (orderly : ∀ a ∈ blocks, a.Orderly) (here : b.Orderly)
    (later : ∀ a ∈ blocks, a.header.slot < b.header.slot) (m : Utxos) :
    ∀ e ∈ (c.get .processedTxs).entries, ∀ tx ∈ (b.confirmation config m).txs, e.1 < tx.key := by
  rw [h.processedTxs.entries, List.forall_mem_map]
  intro before hbefore tx htx
  obtain ⟨conf, hconf, hbefore⟩ := List.mem_flatMap.1 hbefore
  obtain ⟨a, ha, m, rfl⟩ := exists_of_mem_contributions hconf
  refine Tx.key_lt_iff.2 (.inl ?_)
  rw [(orderly a ha).slot_of_mem hbefore, here.slot_of_mem htx]
  exact later a ha

/-- What a block contributes is recorded, and its transactions are marked. -/
theorem record (h : Replayed config blocks c) (orderly : ∀ a ∈ blocks, a.Orderly) (here : b.Orderly)
    (later : ∀ a ∈ blocks, a.header.slot < b.header.slot) {conf : Confirmation}
    (contributes : conf = b.confirmation config (ChainIndex.outputsAfter config blocks))
    (written : conf.Written c c') (tidy : conf.Storable)
    (utxos : (b.outputsAfter config (ChainIndex.outputsAfter config blocks)).StoredIn c') :
    Replayed config (blocks ++ [b]) (conf.txs.foldl moved c') := by
  have kept {bucket : Bucket} (unprocessed : bucket ≠ .unprocessedTxs)
      (processed : bucket ≠ .processedTxs) : (conf.txs.foldl moved c').get bucket = c'.get bucket :=
    get_foldl_moved_of_ne unprocessed processed conf.txs
  have extended : contributions config (blocks ++ [b]) = _ := contributions_append_singleton blocks b
  rw [← contributes] at extended
  refine ⟨fun key => ?_, ⟨?_, ?_⟩, ⟨?_, ?_⟩, ⟨?_, nofun⟩, ?_⟩
  · rw [lookup, kept (by decide) (by decide), written.latestPoint, KeyMap.get?_insert,
      List.getLast?_concat]
    have point : conf.block.point = b.header.point := by
      rw [contributes]
      rfl
    have before := h.latestPoint key
    split
    · rw [point]
      rfl
    · rename_i other
      rwa [if_neg other] at before
  · have behind : ∀ e ∈ (c.get .confirmedBlocks).entries, e.1 < conf.block.key := by
      rw [contributes]
      exact h.blocks_before later
    rw [kept (by decide) (by decide), written.confirmedBlocks, KeyMap.entries_insert_last _ behind,
      h.confirmedBlocks.entries, extended, List.map_append, List.map_append]
    rfl
  · rw [extended, List.map_append, List.forall_mem_append]
    exact ⟨h.confirmedBlocks.storable, List.forall_mem_singleton.2 tidy.block⟩
  · have ordered : conf.txs.Pairwise fun tx later => tx.key < later.key := by
      rw [contributes]
      exact here.ordered _
    have behind : ∀ e ∈ (c.get .processedTxs).entries, ∀ tx ∈ conf.txs, e.1 < tx.key := by
      rw [contributes]
      exact h.txs_before orderly here later _
    rw [foldl_moved_processedTxs, written.processedTxs, KeyMap.entries_insertTxs_last ordered behind,
      h.processedTxs.entries, extended, List.flatMap_append, List.map_append]
    simp
  · rw [extended, List.flatMap_append, List.forall_mem_append]
    refine ⟨h.processedTxs.storable, ?_⟩
    simpa using tidy.txs
  · have none : (conf.txs.foldl moved c').get .unprocessedTxs = ∅ := by
      refine KeyMap.ext_get? fun key => (lookup_foldl_moved_unprocessedTxs c' conf.txs key).trans ?_
      split
      · rfl
      · rename_i other
        rw [lookup, written.unprocessedTxs, KeyMap.get?_insertTxs_of_notMem other, h.unprocessedTxs_eq]
    rw [none]
    rfl
  · have after : ChainIndex.outputsAfter config (blocks ++ [b]) =
        b.outputsAfter config (ChainIndex.outputsAfter config blocks) := List.foldl_append
    rw [after]
    exact utxos.congr (kept (by decide) (by decide))

/-- One more block is confirmed with success, and once its transactions are marked it is processed. -/
theorem confirm (h : Replayed config blocks c) (orderly : ∀ a ∈ blocks, a.Orderly) (here : b.Orderly)
    (later : ∀ a ∈ blocks, a.header.slot < b.header.slot) {s : Indexer} (ready : s.Ready config)
    (sound : s.database.Sound) (same : s.database.contents = c) :
    ∃ conf c', s.confirm b.header b.txs = (.ok conf,
        { s with database := s.database.withContents c', latestPoint := b.header.point }) ∧
      Replayed config (blocks ++ [b]) (conf.txs.foldl moved c') := by
  subst same
  have few := length_lt_of_positions here.distinct
  obtain ⟨conf, t, hconfirm⟩ := Indexer.confirm_succeeds ready sound h.intact b.header few here.storable
  have contributes := Indexer.confirm_filled ready h.intact hconfirm
  obtain ⟨left, -, -, specified, -⟩ := confirm_specified ready h.intact here.distinct here.storable hconfirm
  obtain ⟨tidy, -⟩ := Indexer.storable_of_confirm ready h.intact few here.storable hconfirm
  have utxos := specified.utxos
  rw [confirmedUtxos, relevantTxs, h.utxos.utxos_eq] at utxos
  rw [h.utxos.utxos_eq] at contributes
  refine ⟨conf, t.database.contents, by rw [hconfirm, ← left], ?_⟩
  exact h.record orderly here later contributes (Indexer.confirm_written ready hconfirm) tidy utxos

end Replayed

end Contents

end ChainIndex
