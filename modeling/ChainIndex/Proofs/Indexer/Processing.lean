import ChainIndex.Proofs.Indexer.Progress

/-!
# Every transaction is unprocessed or processed

* `IndexerConfig.Picks`: what is followed of the transactions of a block.
* `Custody`: the transactions that the consumer was handed are those that are followed, and the store has
  each of them in the bucket where it belongs. A confirmation keeps this (`Custody.confirm`), and so does
  marking (`Custody.mark`).
* `Processing`: a course, with the transactions that queries have returned and those that were marked, some
  perhaps in vain. `Processing.Reached`: what it comes to through turns, queries and marking, any of which may fail.
* `tx_in_one_bucket`: so every transaction that is followed is in one of the two buckets, and in that of the
  processed ones exactly if it was marked. `failed_marking_visible`: it may have been marked by a call that failed.
-/

namespace ChainIndex

variable {κ : Type}

/-! ## Blocks and their transactions -/

/-- The transactions of a block are of its slot and at different positions. Their strings and lists, and
their number, have lengths below 2^64. -/
structure BlockTxs (header : BlockHeader) (txs : List Tx) : Prop where
  slot : ∀ tx ∈ txs, tx.blockSlot = header.slot
  positions : (txs.map (·.indexInBlock)).Nodup
  storable : ∀ tx ∈ txs, tx.Storable
  few : txs.length < UInt64.size

/-- The transactions of a block that are followed, with their inputs looked up. -/
def IndexerConfig.Picks (config : IndexerConfig) (txs followed : List Tx) : Prop :=
  ∃ resolved, List.Forall₂ Tx.SameUpToLookups txs resolved ∧
    followed = resolved.filter config.isRelevant

/-- A transaction that is followed has the slot of its block. -/
theorem IndexerConfig.Picks.slot {config : IndexerConfig} {header : BlockHeader}
    {txs followed : List Tx} (h : config.Picks txs followed) (block : BlockTxs header txs) :
    ∀ tx ∈ followed, tx.blockSlot = header.slot := by
  intro tx htx
  obtain ⟨resolved, same, rfl⟩ := h
  obtain ⟨fetched, hfetched, eq⟩ :=
    exists_of_forall₂ same.flip (List.mem_filter.1 htx).1
  rw [eq.eq_inputs]
  exact block.slot fetched hfetched

/-- What a confirmation hands over is what is followed. -/
theorem Indexer.picks_of_confirm {config : IndexerConfig} {s t : Indexer} {header : BlockHeader}
    {txs : List Tx} {c : Confirmation} (ready : s.Ready config)
    (h : s.confirm header txs = (.ok c, t)) : config.Picks txs c.txs := by
  obtain ⟨resolved, database, hresolved, rfl, -, -⟩ := confirm_ok h
  refine ⟨resolved, (resolveInputs_ok hresolved).forall₂.imp fun tx tx' hr => ?_, ?_⟩
  · obtain ⟨front, rest, -, resolvedTx⟩ := hr
    exact resolvedTx.toSameUpToLookups
  · rw [ready.config_eq]
    rfl

/-! ## Custody -/

/-- The transactions of all blocks. -/
def allHanded (handed : List (ConfirmedBlock × List Tx)) : List Tx := handed.flatMap (·.2)

theorem allHanded_append_singleton (handed : List (ConfirmedBlock × List Tx)) (b : ConfirmedBlock)
    (txs : List Tx) : allHanded (handed ++ [(b, txs)]) = allHanded handed ++ txs := by
  simp [allHanded]

/-- The store has every block that the consumer was handed, and every transaction, in the bucket of the
processed ones if it was marked and else in the other one. -/
structure Custody (config : IndexerConfig) (txsOf : BlockHeader → List Tx) (marked : List Tx)
    (c : Contents) (handed : List (ConfirmedBlock × List Tx)) : Prop where
  intact : c.Intact
  recorded : Recorded (handed.map (·.1)) c
  picks : ∀ p ∈ handed, config.Picks (txsOf p.1.header) p.2
  storable : ∀ tx ∈ allHanded handed, tx.Storable
  sorts : c.Sorts (allHanded handed) marked
  known : ∀ tx ∈ marked, tx ∈ allHanded handed

namespace Custody

variable {config : IndexerConfig} {txsOf : BlockHeader → List Tx} {marked : List Tx}
  {c c' : Contents} {handed : List (ConfirmedBlock × List Tx)}

theorem empty : Custody config txsOf [] .empty [] :=
  ⟨.empty, .empty, nofun, nofun, .empty, nofun⟩

/-- A block with a later slot than all others is confirmed. -/
theorem confirm {s t : Indexer} {header : BlockHeader} {conf : Confirmation}
    (block : ∀ header, BlockTxs header (txsOf header))
    (h : Custody config txsOf marked s.database.contents handed) (ready : s.Ready config)
    (confirm : s.confirm header (txsOf header) = (.ok conf, t))
    (later : ∀ b ∈ handed.map (·.1), b.slot < header.slot) :
    Custody config txsOf marked t.database.contents (handed ++ [(conf.block, conf.txs)]) := by
  obtain ⟨-, positions, fetched, few⟩ := block header
  obtain ⟨storable, intact⟩ := Indexer.storable_of_confirm ready h.intact few fetched confirm
  have recorded := Indexer.recorded_of_confirm ready confirm few h.recorded later
  have picks := Indexer.picks_of_confirm ready confirm
  have distinct := Indexer.nodup_keys_of_confirm confirm positions
  have isBlock := Indexer.confirm_block confirm
  -- The keys begin with the slots, so that no old transaction has the key of a new one.
  have fresh : ∀ tx ∈ allHanded handed, ∀ tx' ∈ conf.txs, tx.key ≠ tx'.key := by
    intro tx htx tx' htx' same
    obtain ⟨p, hp, htx⟩ := List.mem_flatMap.1 htx
    have old : tx.blockSlot = p.1.slot := (h.picks p hp).slot (block _) tx htx
    have new : tx'.blockSlot = header.slot := picks.slot (block _) tx' htx'
    have lt := later p.1 (List.mem_map_of_mem hp)
    rw [← old, ← new, (Tx.key_inj same).1] at lt
    exact UInt64.lt_irrefl _ lt
  have nodup : ((allHanded handed ++ conf.txs).map Tx.key).Nodup := by
    rw [List.map_append, List.nodup_append]
    refine ⟨h.sorts.distinct, distinct, ?_⟩
    rintro _ hkey _ hkey' rfl
    obtain ⟨tx, htx, rfl⟩ := List.mem_map.1 hkey
    obtain ⟨tx', htx', same⟩ := List.mem_map.1 hkey'
    exact fresh tx htx tx' htx' same.symm
  refine ⟨intact, ?_, ?_, ?_, ?_, ?_⟩
  · rw [List.map_append]
    exact recorded
  · refine List.forall_mem_append.2 ⟨h.picks, List.forall_mem_singleton.2 ?_⟩
    rw [isBlock]
    exact picks
  all_goals rw [allHanded_append_singleton]
  · exact List.forall_mem_append.2 ⟨h.storable, storable.txs⟩
  · refine h.sorts.record (Indexer.confirm_written ready confirm) nodup fun tx htx marked => ?_
    exact fresh tx (h.known tx marked) tx htx rfl
  · exact fun tx htx => List.mem_append_left _ (h.known tx htx)

/-- Some transactions are marked, of which some may be marked already. -/
theorem mark (h : Custody config txsOf marked c handed) {txs : List Tx}
    (known : ∀ tx ∈ txs, tx ∈ allHanded handed) :
    Custody config txsOf (marked ++ txs) (txs.foldl Contents.moved c) handed where
  intact := h.intact.foldl_moved fun tx htx => h.storable tx (known tx htx)
  recorded := h.recorded.congr (Contents.get_foldl_moved_of_ne (by decide) (by decide) txs)
    (Contents.get_foldl_moved_of_ne (by decide) (by decide) txs)
  picks := h.picks
  storable := h.storable
  sorts := h.sorts.foldl_moved known
  known := List.forall_mem_append.2 ⟨h.known, known⟩

/-- It matters only which ones are marked. -/
theorem congr {marked' : List Tx} (h : Custody config txsOf marked c handed)
    (same : ∀ tx, tx ∈ marked ↔ tx ∈ marked') : Custody config txsOf marked' c handed :=
  ⟨h.intact, h.recorded, h.picks, h.storable, h.sorts.congr same, fun tx htx => h.known tx ((same tx).2 htx)⟩

/-- What is stored as unprocessed was handed over. -/
theorem mem_of_stored (h : Custody config txsOf marked c handed) {txs : List Tx}
    (stored : c.StoresTxs .unprocessedTxs txs) : ∀ tx ∈ txs, tx ∈ allHanded handed := by
  intro tx htx
  obtain ⟨found, storable⟩ := stored tx htx
  obtain ⟨tx', htx', -, -, same⟩ := h.sorts.lookup_unprocessed.1 found
  rwa [Tx.encode_inj storable (h.storable tx' htx') same.symm]

/-- Where a transaction is that was handed over. -/
theorem lookup (h : Custody config txsOf marked c handed) {tx : Tx} (htx : tx ∈ allHanded handed) :
    (tx ∈ marked → c.lookup .processedTxs tx.key = some (Cbor.Record.encode tx) ∧
      c.lookup .unprocessedTxs tx.key = none) ∧
    (tx ∉ marked → c.lookup .unprocessedTxs tx.key = some (Cbor.Record.encode tx) ∧
      c.lookup .processedTxs tx.key = none) := by
  refine ⟨fun isMarked => ⟨?_, ?_⟩, fun isNot => ⟨?_, ?_⟩⟩
  · exact h.sorts.lookup_processed.2 ⟨tx, htx, isMarked, rfl, rfl⟩
  · refine Option.eq_none_iff_forall_ne_some.2 fun value found => ?_
    obtain ⟨tx', htx', isNot, key, -⟩ := h.sorts.lookup_unprocessed.1 found
    exact isNot (h.sorts.eq_of_key_eq htx' htx key ▸ isMarked)
  · exact h.sorts.lookup_unprocessed.2 ⟨tx, htx, isNot, rfl, rfl⟩
  · refine Option.eq_none_iff_forall_ne_some.2 fun value found => ?_
    obtain ⟨tx', htx', isMarked, key, -⟩ := h.sorts.lookup_processed.1 found
    exact isNot (h.sorts.eq_of_key_eq htx' htx key ▸ isMarked)

end Custody

/-! ## Marking -/

/-- What becomes of a store by marking some of the known transactions, one call after the other, of which any may
fail: the transactions of those that succeed, those of the others that are marked in vain, and the store. Others
leave what it holds. -/
inductive Database.Marks (known : List Tx) (db : Database) : List Tx → List Tx → Database → Prop
  | none : Marks known db [] [] db
  | others {marked vain : List Tx} {db' db'' : Database} (h : Marks known db marked vain db')
      (same : db''.contents = db'.contents) : Marks known db marked vain db''
  | mark {marked vain : List Tx} {db' : Database} (h : Marks known db marked vain db') {txs : List Tx}
      (mem : ∀ tx ∈ txs, tx ∈ known) :
      Marks known db (marked ++ db'.marked txs) (vain ++ db'.markedInVain txs) (db'.markProcessed txs).2

theorem Database.Marks.custody {config : IndexerConfig} {txsOf : BlockHeader → List Tx}
    {known old marked vain : List Tx} {db db' : Database} {handed : List (ConfirmedBlock × List Tx)}
    (h : db.Marks known marked vain db') (mem : ∀ tx ∈ known, tx ∈ allHanded handed)
    (custody : Custody config txsOf old db.contents handed) :
    Custody config txsOf (old ++ (marked ++ vain)) db'.contents handed := by
  induction h with
  | none => rwa [List.append_nil, List.append_nil]
  | others _ same ih => exact same ▸ ih
  | @mark marked vain db' _ txs known ih =>
    have after := ih.mark fun tx htx => mem tx (known tx (db'.mem_of_marked htx))
    rw [← contents_markProcessed] at after
    refine after.congr fun tx => ?_
    simp only [List.mem_append]
    tauto

/-! ## Courses with marking -/

/-- A course, with what has been read of the unprocessed transactions and what has been marked. -/
structure Processing (κ : Type) where
  course : Course κ
  /-- What queries have returned. -/
  returned : List Tx := []
  /-- The transactions of the calls for marking that succeeded. -/
  marked : List Tx := []
  /-- Those of the calls that failed, but only by waiting for the disk in vain. -/
  vain : List Tx := []

namespace Processing

/-- The indexer with its store, and what the consumer was handed. -/
def session (m : Processing κ) : Session κ := m.course.session

/-- The store. -/
def database (m : Processing κ) : Database := m.session.indexer.database

/-- What was handed to the consumer or returned by queries. -/
def known (m : Processing κ) : List Tx := allHanded m.session.handed ++ m.returned

/-- After a turn on which the consumer marked some transactions, and some in vain. -/
def turn (m : Processing κ) (turn : Turn κ) (marked vain : List Tx) : Processing κ :=
  { m with course := m.course.turn turn, marked := m.marked ++ marked, vain := m.vain ++ vain }

/-- What the consumer does to the store when it is told of a commit is to mark transactions. -/
def Told (m : Processing κ) (turn : Turn κ) (marked vain : List Tx) : Prop :=
  match m.session.commit? turn with
  | some commit =>
    commit.store.Marks (m.turn turn marked vain).known marked vain (m.turn turn marked vain).database
  | none => marked = [] ∧ vain = []

/-- After a query for unprocessed transactions. -/
def read (m : Processing κ) (max : Nat) : Processing κ :=
  match m.database.unprocessedTxs max with
  | .ok found => { m with returned := m.returned ++ found }
  | .error _ => m

/-- After a call for marking. -/
def mark (m : Processing κ) (txs : List Tx) : Processing κ :=
  { m with
    course.session.indexer.database := (m.database.markProcessed txs).2
    marked := m.marked ++ m.database.marked txs
    vain := m.vain ++ m.database.markedInVain txs }

/-- After others used the store. -/
def others (m : Processing κ) (store : Database → Database) : Processing κ :=
  { m with course.session.indexer.database := store m.database }

/-- What a course comes to from an empty store, through turns, queries and marking. The slots of the chain that
is announced increase, and are above those that are settled. What an indexer writes it commits: no confirmation
waits for the disk in vain. -/
inductive Reached (config : IndexerConfig) (txsOf : BlockHeader → List Tx) : Processing κ → Prop
  | new {db : Database} {s : Indexer} (new : Indexer.new config db = .ok s)
      (empty : db.contents = .empty) (k : κ) : Reached config txsOf { course := .start s k }
  | turn {m : Processing κ} (h : Reached config txsOf m) (turn : Turn κ) {marked vain : List Tx}
      (agrees : turn.Agrees txsOf) (same : (turn.store m.database).contents = m.database.contents)
      (rising : Rising (m.turn turn marked vain).course.chain) (told : m.Told turn marked vain)
      (committed : m.session.written? turn = m.session.commit? turn) :
      Reached config txsOf (m.turn turn marked vain)
  | read {m : Processing κ} (h : Reached config txsOf m) (max : Nat) :
      Reached config txsOf (m.read max)
  | mark {m : Processing κ} (h : Reached config txsOf m) {txs : List Tx}
      (mem : ∀ tx ∈ txs, tx ∈ m.known) : Reached config txsOf (m.mark txs)
  | others {m : Processing κ} (h : Reached config txsOf m) {store : Database → Database}
      (same : (store m.database).contents = m.database.contents) : Reached config txsOf (m.others store)

/-- Between two steps the store has custody of the transactions. -/
structure Safe (config : IndexerConfig) (txsOf : BlockHeader → List Tx) (m : Processing κ) : Prop where
  ready : m.session.indexer.Ready config
  onTrack : m.course.OnTrack
  rising : Rising m.course.chain
  custody : Custody config txsOf (m.marked ++ m.vain) m.database.contents m.session.handed
  returned : ∀ tx ∈ m.returned, tx ∈ allHanded m.session.handed

namespace Safe

variable {config : IndexerConfig} {txsOf : BlockHeader → List Tx} {m : Processing κ}

theorem new {db : Database} {s : Indexer} (new : Indexer.new config db = .ok s)
    (empty : db.contents = .empty) (k : κ) : Safe config txsOf { course := .start s k } := by
  have ready := Indexer.Ready.new new
  obtain rfl := Indexer.new_ok new
  refine ⟨ready, .anew rfl rfl rfl, .nil, ?_, nofun⟩
  change Custody config txsOf [] db.contents []
  rw [empty]
  exact .empty

theorem mem_known (h : m.Safe config txsOf) : ∀ tx ∈ m.known, tx ∈ allHanded m.session.handed :=
  List.forall_mem_append.2 ⟨fun _ htx => htx, h.returned⟩

theorem read (h : m.Safe config txsOf) (max : Nat) : (m.read max).Safe config txsOf := by
  unfold Processing.read
  split
  · rename_i found hfound
    have stored := Database.firstTxs_ok h.custody.intact (.inl rfl) hfound
    have returned := List.forall_mem_append.2 ⟨h.returned, h.custody.mem_of_stored stored⟩
    exact ⟨h.ready, h.onTrack, h.rising, h.custody, returned⟩
  · exact h

/-- Further transactions are marked, some in vain. -/
theorem custody_marks (h : Custody config txsOf (m.marked ++ m.vain) c handed)
    {known marked vain : List Tx} {db db' : Database} (same : db.contents = c)
    (marks : db.Marks known marked vain db') (mem : ∀ tx ∈ known, tx ∈ allHanded handed) :
    Custody config txsOf (m.marked ++ marked ++ (m.vain ++ vain)) db'.contents handed := by
  subst same
  refine (marks.custody mem h).congr fun tx => ?_
  simp only [List.mem_append]
  tauto

theorem mark (h : m.Safe config txsOf) {txs : List Tx} (mem : ∀ tx ∈ txs, tx ∈ m.known) :
    (m.mark txs).Safe config txsOf :=
  ⟨h.ready.store _, h.onTrack, h.rising,
    custody_marks h.custody rfl (.mark .none mem) h.mem_known, h.returned⟩

theorem others (h : m.Safe config txsOf) {store : Database → Database}
    (same : (store m.database).contents = m.database.contents) : (m.others store).Safe config txsOf :=
  ⟨h.ready.store _, h.onTrack, h.rising, same ▸ h.custody, h.returned⟩

/-- The store after a turn, if it had custody of the transactions before. -/
theorem custody_turn (blocks : ∀ header, BlockTxs header (txsOf header)) (h : m.Safe config txsOf)
    {turn : Turn κ} {marked vain : List Tx} (agrees : turn.Agrees txsOf)
    (same : (turn.store m.database).contents = m.database.contents)
    (rising : Rising (m.session.turn turn).confirmed) (told : m.Told turn marked vain)
    (committed : m.session.written? turn = m.session.commit? turn)
    (mem : ∀ tx ∈ (m.turn turn marked vain).known, tx ∈ allHanded (m.session.turn turn).handed) :
    Custody config txsOf (m.marked ++ marked ++ (m.vain ++ vain))
      (m.session.turn turn).indexer.database.contents (m.session.turn turn).handed := by
  have turned := Session.turn_turned h.ready turn
  have found : Custody config txsOf (m.marked ++ m.vain) (turn.store m.database).contents
      m.session.handed := same ▸ h.custody
  rw [committed] at turned
  unfold Told at told
  cases hc : m.session.commit? turn with
  | none =>
    obtain ⟨-, handed, -⟩ := Session.turn_of_none h.ready hc
    rw [hc] at told turned
    obtain ⟨rfl, rfl⟩ := told
    cases turned with
    | idle left =>
      rw [List.append_nil, List.append_nil, handed, left]
      exact found
  | some commit =>
    obtain ⟨c, header, txs, s, rfl, fetched, confirm, store, later⟩ := Session.later_of_commit? hc rising
    obtain ⟨-, -, -, handed, -⟩ := Session.turn_of_some hc
    obtain rfl : txs = txsOf header := agrees header txs fetched
    have custody := found.confirm blocks (h.ready.store _) confirm later
    rw [store, ← handed] at custody
    rw [hc] at told
    have after := custody_marks custody rfl told mem
    rwa [turn, database, session, Course.session_turn] at after

theorem turn (blocks : ∀ header, BlockTxs header (txsOf header)) (h : m.Safe config txsOf)
    {turn : Turn κ} {marked vain : List Tx} (agrees : turn.Agrees txsOf)
    (same : (turn.store m.database).contents = m.database.contents)
    (rising : Rising (m.turn turn marked vain).course.chain) (told : m.Told turn marked vain)
    (committed : m.session.written? turn = m.session.commit? turn) :
    (m.turn turn marked vain).Safe config txsOf := by
  have onTrack := h.onTrack.turn h.ready h.rising.append_right.differ turn
  have confirmed := onTrack.rising rising
  obtain ⟨more, handed⟩ := Session.handed_turn h.ready turn
  have returned : ∀ tx ∈ m.returned, tx ∈ allHanded (m.session.turn turn).handed := by
    intro tx htx
    rw [handed, allHanded, List.flatMap_append]
    exact List.mem_append_left _ (h.returned tx htx)
  have session : (m.turn turn marked vain).session = m.session.turn turn := Course.session_turn ..
  rw [Course.session_turn] at confirmed
  have custody := h.custody_turn blocks agrees same confirmed told committed (by
    rw [known, session]
    exact List.forall_mem_append.2 ⟨fun _ htx => htx, returned⟩)
  refine ⟨?_, onTrack, rising, ?_, ?_⟩
  · rw [session]
    exact Session.ready_turn h.ready turn
  all_goals simp only [database, session]
  · exact custody
  · exact returned

theorem of_reached (blocks : ∀ header, BlockTxs header (txsOf header))
    (reached : Reached config txsOf m) : m.Safe config txsOf := by
  induction reached with
  | new new empty k => exact .new new empty k
  | turn _ turn agrees same rising told committed ih =>
    exact ih.turn blocks agrees same rising told committed
  | read _ max ih => exact ih.read max
  | mark _ mem ih => exact ih.mark mem
  | others _ same ih => exact ih.others same

end Safe

/-! ## Two kinds of consumers -/

/-- A consumer that does not write to the store marks nothing. -/
theorem told_of_quiet {turn : Turn κ} (quiet : turn.Quiet) (m : Processing κ) : m.Told turn [] [] := by
  unfold Told
  cases hc : m.session.commit? turn with
  | none => exact ⟨rfl, rfl⟩
  | some commit =>
    obtain ⟨c, rfl, -, -, database⟩ := Session.turn_of_some hc
    rw [quiet.1] at database
    have same : (m.turn (.event c) [] []).database = commit.store := database
    rw [same]
    exact .none

/-- A consumer that marks what it is told of. -/
theorem told_of_marking {m : Processing κ} {c : Call κ} {commit : Commit}
    (h : m.session.commit? (.event c) = some commit)
    (marks : ∀ block txs k db, (c.consumer block txs k db).2.2 = (db.markProcessed txs).2) :
    m.Told (.event c) (commit.store.marked commit.confirmation.txs)
      (commit.store.markedInVain commit.confirmation.txs) := by
  obtain ⟨c, hc, -, handed, database⟩ := Session.turn_of_some h
  cases hc
  unfold Told
  rw [h]
  change Database.Marks _ _ _ _ (m.session.turn (.event c)).indexer.database
  rw [database, marks]
  refine .mark .none fun tx htx => List.mem_append_left _ ?_
  change tx ∈ allHanded (m.session.turn (.event c)).handed
  rw [handed, allHanded_append_singleton]
  exact List.mem_append_right _ htx

/-- Takes turns in order. -/
def turns (m : Processing κ) (turns : List (Turn κ)) : Processing κ :=
  turns.foldl (fun m turn => m.turn turn [] []) m

theorem Reached.turns {config : IndexerConfig} {txsOf : BlockHeader → List Tx} {m : Processing κ}
    (blocks : ∀ header, BlockTxs header (txsOf header)) (h : m.Reached config txsOf) {turns : List (Turn κ)}
    (alone : ∀ turn ∈ turns, turn.Alone txsOf) (disk : m.session.ReachesDisk turns)
    (rising : ∀ n ≤ turns.length, Rising (m.turns (turns.take n)).course.chain) :
    (m.turns turns).Reached config txsOf := by
  induction turns generalizing m with
  | nil => exact h
  | cons turn turns ih =>
    obtain ⟨⟨agrees, quiet⟩, others⟩ := List.forall_mem_cons.1 alone
    have here : Rising (m.turn turn [] []).course.chain := rising 1 (Nat.succ_le_succ (Nat.zero_le _))
    have ready := (Safe.of_reached blocks h).ready
    have next := h.turn turn agrees (quiet.store _) here (m.told_of_quiet quiet)
      (Session.written?_eq_commit? ready disk.1)
    have session : (m.turn turn [] []).session = m.session.turn turn := Course.session_turn ..
    exact ih next others (session ▸ disk.2) fun n hn => rising (n + 1) (Nat.succ_le_succ hn)

end Processing

/-- Take any course of an indexer from an empty store, through announced headers, rollbacks, resets and
restarts, with queries for unprocessed transactions and calls for marking in between or by the consumer when it
is told of a block. All of these may fail, confirmations without any effect. Slots increase along the chain; the
transactions of a block have its slot and different positions. What is marked was handed to the consumer or
returned by a query before; it may be marked again.

The consumer was handed the stored blocks, each with those of its transactions that are followed. Each of them
is stored under its key as it was handed over: as processed if a call for marking contained it that succeeded,
or failed by waiting for the disk in vain, and else as unprocessed, but not as both. Nothing else is stored as
either. -/
theorem tx_in_one_bucket {config : IndexerConfig} {txsOf : BlockHeader → List Tx}
    (blocks : ∀ header, BlockTxs header (txsOf header)) {m : Processing κ}
    (reached : m.Reached config txsOf) :
    let c := m.database.contents
    (∀ key value, c.lookup .confirmedBlocks key = some value ↔
      ∃ b txs, (b, txs) ∈ m.session.handed ∧ b.key = key ∧ Cbor.Record.encode b = value) ∧
    (∀ b txs, (b, txs) ∈ m.session.handed → config.Picks (txsOf b.header) txs ∧ ∀ tx ∈ txs,
      (tx ∈ m.marked ∨ tx ∈ m.vain →
        c.lookup .processedTxs tx.key = some (Cbor.Record.encode tx) ∧
          c.lookup .unprocessedTxs tx.key = none) ∧
      (tx ∉ m.marked ∧ tx ∉ m.vain →
        c.lookup .unprocessedTxs tx.key = some (Cbor.Record.encode tx) ∧
          c.lookup .processedTxs tx.key = none)) ∧
    ∀ key value, c.lookup .unprocessedTxs key = some value ∨ c.lookup .processedTxs key = some value →
      ∃ b txs tx, (b, txs) ∈ m.session.handed ∧ tx ∈ txs ∧ tx.key = key ∧
        Cbor.Record.encode tx = value := by
  intro c
  have custody := (Processing.Safe.of_reached blocks reached).custody
  refine ⟨fun key value => ?_, fun b txs mem => ⟨custody.picks _ mem, fun tx htx => ?_⟩,
    fun key value stored => ?_⟩
  · rw [Contents.lookup, KeyMap.get?_eq_some_iff, custody.recorded.entries, List.map_map]
    simp [ConfirmedBlock.entry]
  · have place := custody.lookup (List.mem_flatMap.2 ⟨_, mem, htx⟩)
    rwa [List.mem_append, not_or] at place
  · obtain ⟨tx, htx, key, value⟩ : ∃ tx ∈ allHanded m.session.handed, tx.key = key ∧
        Cbor.Record.encode tx = value := by
      rcases stored with stored | stored
      · obtain ⟨tx, htx, -, found⟩ := custody.sorts.lookup_unprocessed.1 stored
        exact ⟨tx, htx, found⟩
      · obtain ⟨tx, htx, -, found⟩ := custody.sorts.lookup_processed.1 stored
        exact ⟨tx, htx, found⟩
    obtain ⟨p, hp, htx⟩ := List.mem_flatMap.1 htx
    exact ⟨p.1, p.2, tx, hp, htx, key, value⟩

/-! ## A run -/

/-- A block has a transaction that pays to alice, and one that pays to bob. -/
def payingTxs (header : BlockHeader) : List Tx :=
  [Fixture.tx header.slot 0 [] [Fixture.output "alice" 5],
    Fixture.tx header.slot 1 [] [Fixture.output "bob" 7]]

theorem payingTxs_block (header : BlockHeader) : BlockTxs header (payingTxs header) where
  slot := by simp [payingTxs, Fixture.tx]
  positions := by simp [payingTxs, Fixture.tx]
  storable := by
    simp only [payingTxs, List.forall_mem_cons]
    exact ⟨Fixture.storable_tx _ _ (by decide) (by decide)
        (List.forall_mem_singleton.2 (Fixture.storable_output 5 (by decide))),
      Fixture.storable_tx _ _ (by decide) (by decide)
        (List.forall_mem_singleton.2 (Fixture.storable_output 7 (by decide))), List.forall_mem_nil _⟩
  few := (by decide : 2 < UInt64.size)

/-- A header is announced, and the consumer does nothing to the store. -/
def paying (faults : Faults) (slot : UInt64) : Turn Unit :=
  .event ⟨⟨fun header => .ok (payingTxs header), fun _ _ k db => (.ok (), k, db),
    Database.withFaults faults⟩, .rollForward (Fixture.header slot)⟩

theorem paying_alone (faults : Faults) (slot : UInt64) : (paying faults slot).Alone payingTxs := by
  refine ⟨?_, fun _ _ _ _ => rfl, fun _ => rfl⟩
  rintro header _ ⟨⟩
  rfl

/-- A header is announced, and the consumer marks what it is told of. -/
def payingMarked (slot : UInt64) : Call Unit :=
  ⟨⟨fun header => .ok (payingTxs header), fun _ txs k db => (.ok (), k, (db.markProcessed txs).2), id⟩,
    .rollForward (Fixture.header slot)⟩

/-- The transaction of the first block is read as unprocessed and marked, in vain at first, and then twice at
once. After a restart a second block is confirmed, and a third one whose transaction the consumer marks. So the
first and the third transaction are processed, and the second one is not. -/
theorem tx_in_one_bucket_payingTxs :
    let config : IndexerConfig := { confirmationDepth := 1, addressesOfInterest := ["alice"] }
    let s : Indexer := { config, database := .new .memory, window := .empty 1 }
    let mended := Database.withFaults .never
    let alice (slot : UInt64) : Tx := Fixture.tx slot 0 [] [Fixture.output "alice" 5]
    let first : Processing Unit := Processing.turns { course := .start s () }
      [.reset mended, paying .never 1, paying .never 2, paying diskFull 3]
    let failed := ((first.read 5).others (Database.withFaults diskFull)).mark [alice 1]
    let twice := (failed.others mended).mark [alice 1, alice 1]
    let second := twice.turns [.restart mended, .reset mended, paying .never 3, paying .never 4]
    let m := second.turn (.event (payingMarked 5)) [alice 4] []
    let c := m.database.contents
    m.session.handed.map (fun p => (p.1.slot, p.2)) = [(1, [alice 1]), (3, [alice 3]), (4, [alice 4])] ∧
      (∀ tx ∈ [alice 1, alice 4], c.lookup .processedTxs tx.key = some (Cbor.Record.encode tx) ∧
        c.lookup .unprocessedTxs tx.key = none) ∧
      c.lookup .unprocessedTxs (alice 3).key = some (Cbor.Record.encode (alice 3)) ∧
      c.lookup .processedTxs (alice 3).key = none := by
  intro config s mended alice first failed twice second m c
  have new : Indexer.new config (.new .memory) = .ok s := by
    rw [Indexer.new, show config.fault? = none by decide]
    rfl
  have mends : (Turn.reset mended : Turn Unit).Alone payingTxs := ⟨trivial, fun _ => rfl⟩
  have firstReached : first.Reached config payingTxs := by
    refine (Processing.Reached.new new rfl ()).turns payingTxs_block ?_ (by decide +kernel)
      (by decide +kernel)
    simp only [List.forall_mem_cons]
    exact ⟨mends, paying_alone _ 1, paying_alone _ 2, paying_alone _ 3, List.forall_mem_nil _⟩
  have twiceReached : twice.Reached config payingTxs :=
    ((((firstReached.read 5).others (Database.contents_withFaults ..)).mark (by decide +kernel)).others
      (Database.contents_withFaults ..)).mark (by decide +kernel)
  have secondReached : second.Reached config payingTxs := by
    refine twiceReached.turns payingTxs_block ?_ (by decide +kernel) (by decide +kernel)
    simp only [List.forall_mem_cons]
    exact ⟨mends, mends, paying_alone _ 3, paying_alone _ 4, List.forall_mem_nil _⟩
  have told : second.Told (.event (payingMarked 5)) [alice 4] [] := by
    have commits : (second.session.commit? (.event (payingMarked 5))).map (fun commit =>
        (commit.store.marked commit.confirmation.txs, commit.store.markedInVain commit.confirmation.txs)) =
          some ([alice 4], []) := by decide +kernel
    obtain ⟨commit, hc, h⟩ := Option.map_eq_some_iff.1 commits
    obtain ⟨marked, vain⟩ := Prod.mk.inj h
    rw [← marked, ← vain]
    exact Processing.told_of_marking hc fun _ _ _ _ => rfl
  have agrees : (Turn.event (payingMarked 5)).Agrees payingTxs := fun _ _ h => (Except.ok.inj h).symm
  have ready := (Processing.Safe.of_reached payingTxs_block secondReached).ready
  have reached : m.Reached config payingTxs :=
    secondReached.turn (.event (payingMarked 5)) agrees rfl (by decide +kernel) told
      (Session.written?_eq_commit? ready (by decide +kernel))
  have handed : m.session.handed.map (fun p => (p.1.slot, p.2)) =
      [(1, [alice 1]), (3, [alice 3]), (4, [alice 4])] := by decide +kernel
  obtain ⟨-, stored, -⟩ := tx_in_one_bucket payingTxs_block reached
  have place (slot : UInt64) (mem : (slot, [alice slot]) ∈ m.session.handed.map fun p => (p.1.slot, p.2)) :
      (alice slot ∈ m.marked ∨ alice slot ∈ m.vain → c.lookup .processedTxs (alice slot).key =
          some (Cbor.Record.encode (alice slot)) ∧ c.lookup .unprocessedTxs (alice slot).key = none) ∧
        (alice slot ∉ m.marked ∧ alice slot ∉ m.vain → c.lookup .unprocessedTxs (alice slot).key =
          some (Cbor.Record.encode (alice slot)) ∧ c.lookup .processedTxs (alice slot).key = none) := by
    obtain ⟨⟨b, txs⟩, hp, h⟩ := List.mem_map.1 mem
    obtain ⟨-, rfl⟩ := Prod.mk.inj h
    exact (stored b _ hp).2 (alice slot) List.mem_cons_self
  rw [handed] at place
  refine ⟨handed, List.forall_mem_cons.2 ⟨?_, List.forall_mem_singleton.2 ?_⟩, ?_⟩
  · exact (place 1 (by decide)).1 (by decide +kernel)
  · exact (place 4 (by decide)).1 (by decide +kernel)
  · exact (place 3 (by decide)).2 (by decide +kernel)

/-- A transaction is handed over, and then marked by a call that waits for the disk in vain. The call fails, no
other one was made, and the transaction is processed. -/
theorem failed_marking_visible :
    let config : IndexerConfig := { confirmationDepth := 1 }
    let s : Indexer := { config, database := .new (.durable true), window := .empty 1 }
    let handed : Processing Unit := Processing.turns { course := .start s () }
      [.reset id, paying .never 1, paying .never 2]
    let unsynced := handed.others (Database.withFaults { sync := some (.backend "sync failed") })
    let txs := payingTxs (Fixture.header 1)
    let m := unsynced.mark txs
    m.Reached config payingTxs ∧ handed.session.handed.map (·.2) = [txs] ∧
      (unsynced.database.markProcessed txs).1 = .error (.backend "sync failed") ∧ m.marked = [] ∧
      ∀ tx ∈ txs, unsynced.database.contents.lookup .processedTxs tx.key = none ∧
        m.database.contents.lookup .processedTxs tx.key = some (Cbor.Record.encode tx) ∧
        m.database.contents.lookup .unprocessedTxs tx.key = none := by
  intro config s handed unsynced txs m
  have new : Indexer.new config (.new (.durable true)) = .ok s := by
    rw [Indexer.new, show config.fault? = none by decide]
    rfl
  have reached : handed.Reached config payingTxs := by
    refine (Processing.Reached.new new rfl ()).turns payingTxs_block ?_ (by decide +kernel)
      (by decide +kernel)
    simp only [List.forall_mem_cons]
    exact ⟨⟨trivial, fun _ => rfl⟩, paying_alone _ 1, paying_alone _ 2, List.forall_mem_nil _⟩
  exact ⟨(reached.others (Database.contents_withFaults ..)).mark (by decide +kernel), by decide +kernel,
    by decide +kernel, by decide +kernel, by decide +kernel⟩

end ChainIndex
