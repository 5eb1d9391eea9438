import ChainIndex.Proofs.Replay.Stored
import ChainIndex.Proofs.Runner.Unfailing
import ChainIndex.Replay.Basic

/-!
# Headers that a replay announces

* `Replay.Midway done waiting s`: of the announced blocks some are processed, and the headers of the others
  wait. One more announcement succeeds: its header waits if there is room (`Replay.Midway.waits`), and else
  the oldest block that waits is processed (`Replay.Midway.processes`).
* `Replay.Midway.takes`: so all headers of a chain are taken, and at most as many blocks wait as the window
  has room for. `Replay.Midway.follow_eq`: and a replay that follows them succeeds.
-/

namespace ChainIndex

/-- An announcement that finds the window full and confirms the oldest block. -/
theorem Indexer.rollForward_of_confirm {κ : Type} {s t : Indexer} {source : BlockSource}
    (consumer : Consumer κ) (header : BlockHeader) (k : κ) {oldest : BlockHeader}
    {rest : List BlockHeader} {txs : List Tx} {c : Confirmation} (full : s.window.isFull = true)
    (pending : s.pending = oldest :: rest) (fetched : source oldest = .ok txs)
    (confirm : s.confirm oldest txs = (.ok c, t)) :
    ∃ window : Window BlockHeader, window.entries = rest ++ [header] ∧
      window.capacity = s.window.capacity ∧
      s.rollForward source consumer header k =
        ((consumer c.block c.txs k t.database).1.mapError (.consumer c.block.point),
          { t with window, database := (consumer c.block c.txs k t.database).2.2 },
          (consumer c.block c.txs k t.database).2.1) := by
  obtain ⟨window, hpush, entries, capacity⟩ := push_confirmed header pending confirm
  have hpeek : s.window.peek? = some oldest := by
    rw [Window.peek?, show s.window.entries = oldest :: rest from pending]
    rfl
  refine ⟨window, entries, capacity, ?_⟩
  unfold rollForward
  simp only [full, hpeek, fetched, confirm, hpush]
  rcases consumer c.block c.txs k t.database with ⟨_ | _, _, _⟩ <;> rfl

/-- A source hands out the transactions of blocks. -/
def BlockSource.Offers (source : BlockSource) (blocks : List SourceBlock) : Prop :=
  ∀ b ∈ blocks, source b.header = .ok b.txs

/-- Blocks with increasing slots, with their transactions in order. -/
structure Replayable (blocks : List SourceBlock) : Prop where
  rising : blocks.Pairwise fun b later => b.header.slot < later.header.slot
  orderly : ∀ b ∈ blocks, b.Orderly

theorem Replayable.front {front rest : List SourceBlock} (h : Replayable (front ++ rest)) :
    Replayable front :=
  ⟨(List.pairwise_append.1 h.rising).1, fun b hb => h.orderly b (List.mem_append_left _ hb)⟩

namespace Replay

/-- Of the announced blocks some are processed, and the headers of the others wait. -/
structure Midway (config : IndexerConfig) (db : Database) (done waiting : List SourceBlock)
    (s : Indexer) : Prop where
  ready : s.Ready config
  store : ∃ c, s.database = db.withContents c ∧ c.Replayed config done
  pending : s.pending = waiting.map (·.header)

namespace Midway

variable {config : IndexerConfig} {db : Database} {source : BlockSource} {s : Indexer}
  {done waiting rest : List SourceBlock} {b : SourceBlock}

/-- Where there is room a header waits. -/
theorem waits (h : Midway config db done waiting s) (b : SourceBlock)
    (room : waiting.length < config.confirmationDepth.toNat) :
    ∃ t, handle source (.rollForward b.header) s = (.ok (), t) ∧
      Midway config db done (waiting ++ [b]) t := by
  have notFull : s.window.isFull = false := by
    rw [Bool.eq_false_iff, Ne, Indexer.isFull_iff, h.ready.capacity_eq, h.pending, List.length_map]
    exact Nat.not_le.2 room
  obtain ⟨window, hpush, entries, capacity⟩ := Indexer.push_of_room b.header notFull
  refine ⟨{ s with window }, ?_, ⟨h.ready.config_eq, h.ready.faultless, h.ready.writer_eq,
    capacity.trans h.ready.capacity_eq⟩, h.store, ?_⟩
  · simp only [handle, Indexer.rollForward, notFull, hpush]
    rfl
  · rw [Indexer.pending, entries, h.pending, List.map_append]
    rfl

/-- Where there is none the oldest block that waits is processed. -/
theorem processes {oldest : SourceBlock} (h : Midway config db done (oldest :: waiting) s)
    (sound : db.Sound) (chain : Replayable (done ++ [oldest]))
    (fetched : source oldest.header = .ok oldest.txs) (b : SourceBlock)
    (full : config.confirmationDepth.toNat ≤ (oldest :: waiting).length) :
    ∃ t, handle source (.rollForward b.header) s = (.ok (), t) ∧
      Midway config db (done ++ [oldest]) (waiting ++ [b]) t := by
  obtain ⟨c, database, replayed⟩ := h.store
  have soundHere : s.database.Sound := database ▸ sound.withContents c
  obtain ⟨orderly, here⟩ := List.forall_mem_append.1 chain.orderly
  have later : ∀ a ∈ done, a.header.slot < oldest.header.slot := fun a ha =>
    (List.pairwise_append.1 chain.rising).2.2 a ha oldest (List.mem_singleton_self oldest)
  obtain ⟨conf, c', hconfirm, replayed'⟩ := replayed.confirm orderly
    (here oldest (List.mem_singleton_self oldest)) later h.ready soundHere (by rw [database]; rfl)
  have isFull : s.window.isFull = true := by
    rw [Indexer.isFull_iff, h.ready.capacity_eq, h.pending, List.length_map]
    exact full
  obtain ⟨window, entries, capacity, forwarded⟩ :=
    Indexer.rollForward_of_confirm markingConsumer b.header () isFull h.pending fetched hconfirm
  have marked : markingConsumer conf.block conf.txs () (s.database.withContents c') =
      (.ok (), (), s.database.withContents (conf.txs.foldl Contents.moved c')) := by
    rw [markingConsumer, (soundHere.withContents c').markProcessed_eq]
    rfl
  rw [marked] at forwarded
  refine ⟨{ s with
    database := s.database.withContents (conf.txs.foldl Contents.moved c'), window,
    latestPoint := oldest.header.point }, ?_, ⟨h.ready.config_eq, h.ready.faultless, h.ready.writer_eq,
      capacity.trans h.ready.capacity_eq⟩, ⟨_, by rw [database]; rfl, replayed'⟩, ?_⟩
  · rw [handle, forwarded]
    rfl
  · rw [Indexer.pending, entries, List.map_append]
    rfl

/-- All headers are taken that follow, and as many wait as there is room for. -/
theorem takes (h : Midway config db done waiting s) (sound : db.Sound)
    (chain : Replayable (done ++ waiting ++ rest)) (offers : source.Offers (done ++ waiting ++ rest))
    (bounded : waiting.length ≤ config.confirmationDepth.toNat) :
    ∃ done' waiting' t, done' ++ waiting' = done ++ waiting ++ rest ∧
      waiting'.length = min config.confirmationDepth.toNat (waiting.length + rest.length) ∧
      Runner.Takes (handle source) s (rest.map fun b => .rollForward b.header) t ∧
      Midway config db done' waiting' t := by
  induction rest generalizing done waiting s with
  | nil =>
    refine ⟨done, waiting, s, (List.append_nil _).symm, ?_, .done s, h⟩
    rw [List.length_nil, Nat.add_zero, Nat.min_eq_right bounded]
  | cons b rest ih =>
    by_cases room : waiting.length < config.confirmationDepth.toNat
    · obtain ⟨t, answer, h'⟩ := h.waits b room
      have split : done ++ (waiting ++ [b]) ++ rest = done ++ waiting ++ b :: rest := by simp
      obtain ⟨done', waiting', u, all, length, takes, h''⟩ := ih h' (split ▸ chain) (split ▸ offers)
        (by rw [List.length_append]; exact room)
      refine ⟨done', waiting', u, all.trans split, ?_, .step answer takes, h''⟩
      rw [length, List.length_append, List.length_singleton, List.length_cons]
      omega
    · have deep : config.confirmationDepth ≠ 0 :=
        ((IndexerConfig.fault?_eq_none_iff config).1 h.ready.faultless).2.2.1
      obtain _ | ⟨oldest, others⟩ := waiting
      · exact absurd (UInt32.toNat_inj.1 (Nat.eq_zero_of_not_pos room)) deep
      have split : done ++ [oldest] ++ (others ++ [b]) ++ rest = done ++ oldest :: others ++ b :: rest := by
        simp
      rw [← split] at chain offers ⊢
      obtain ⟨t, answer, h'⟩ := h.processes sound chain.front.front (offers oldest (by simp)) b
        (Nat.not_lt.1 room)
      obtain ⟨done', waiting', u, all, length, takes, h''⟩ := ih h' chain offers (by simpa using bounded)
      refine ⟨done', waiting', u, all, ?_, .step answer takes, h''⟩
      simp only [length, List.length_append, List.length_cons] at room ⊢
      omega

end Midway

/-! ## Behind the runner -/

variable {handler : Runner.Handler Indexer} {s t : Indexer}

/-- A runner takes all headers that the handler takes. -/
theorem announce_heads {r : Runner Indexer} {headers : List BlockHeader} (heads : r.Heads handler s)
    (serving : r.Serving) (takes : Runner.Takes handler s (headers.map .rollForward) t) :
    (announce handler headers r).Heads handler t ∧ (announce handler headers r).Serving := by
  induction headers generalizing r s with
  | nil =>
    cases takes
    exact ⟨heads, serving⟩
  | cons header headers ih =>
    obtain _ | ⟨answer, rest⟩ := takes
    obtain ⟨accepted, heads', serving'⟩ := heads.send serving (m := .event (.rollForward header))
      (.step answer (.done _))
    unfold announce
    rcases hr : r.send handler (.event (.rollForward header)) with ⟨offer, r'⟩
    rw [hr] at accepted heads' serving'
    cases accepted
    exact ih heads' serving' rest

/-- An indexer that takes all headers follows them to their end. -/
theorem follow_of_takes {source : BlockSource} {headers : List BlockHeader}
    (takes : Runner.Takes (handle source) s (headers.map .rollForward) t) :
    follow s source headers = (.ok (), t.database) := by
  have fresh : (Runner.new s s.config.queueSize.toNat).start.Heads (handle source) s :=
    ⟨.done s, rfl, nofun⟩
  have serving : (Runner.new s s.config.queueSize.toNat).start.Serving :=
    ⟨rfl, rfl, rfl, rfl, Nat.lt_of_lt_of_le Nat.one_pos (Nat.le_max_right _ 1)⟩
  obtain ⟨announced, serving⟩ := announce_heads fresh serving takes
  obtain ⟨synced, serving⟩ := announced.sync serving
  obtain ⟨handler, errors⟩ := synced.close serving
  unfold follow
  simp only [errors, handler]
  rfl

/-- A replay that goes on where nothing waits processes all blocks but the last ones, as many as the window
has room for. -/
theorem Midway.follow_eq {config : IndexerConfig} {db : Database} {source : BlockSource}
    {done rest : List SourceBlock} (h : Midway config db done [] s) (sound : db.Sound)
    (chain : Replayable (done ++ rest)) (offers : source.Offers (done ++ rest)) :
    ∃ done' waiting c, done' ++ waiting = done ++ rest ∧
      waiting.length = min config.confirmationDepth.toNat rest.length ∧
      follow s source (rest.map (·.header)) = (.ok (), db.withContents c) ∧
      c.Replayed config done' := by
  rw [← List.append_nil done] at chain offers
  obtain ⟨done', waiting, t, all, length, takes, h'⟩ := h.takes sound chain offers (Nat.zero_le _)
  obtain ⟨c, database, replayed⟩ := h'.store
  refine ⟨done', waiting, c, by rw [all, List.append_nil], by simpa using length, ?_, replayed⟩
  rw [← database]
  refine follow_of_takes ?_
  rwa [List.map_map]

end Replay

end ChainIndex
