import ChainIndex.Proofs.Indexer.Chain
import ChainIndex.Proofs.Indexer.Marked
import ChainIndex.Proofs.Indexer.Notices
import ChainIndex.Proofs.Indexer.Readable
import ChainIndex.Proofs.Storage.Blocks

/-!
# What has been confirmed, in memory and in the store

* `Database.Spares`: what others do to a store that has nothing to do with blocks.
* `Indexer.recorded_of_confirm`: a confirmation records its block behind those with earlier slots. As long as
  slots increase, a commit is such a confirmation (`Session.later_of_commit?`).
* `Session.recorded_turn`: as long as slots do not decrease, a turn leaves what is left of the blocks that the
  consumer was handed, which is all of them if slots increase (`Session.survivors_blocks`).
* `Course.Leads`: what a course comes to through turns and new indexers over the same store, along chains with
  increasing slots. It keeps `Course.Agrees`.
* `progress_agrees`: so memory, the latest point and the last block of the store agree, and the stored blocks
  only grow at their end. `unsynced_progress_differs`: but after a wait for the disk in vain they differ.
-/

namespace ChainIndex

variable {κ : Type}

/-! ## Use of the store by others -/

/-- Others leave the blocks and the latest point, and bring about no commit that waits for the disk in
vain. -/
structure Database.Spares (db db' : Database) : Prop where
  disk : db'.engine.ReachesDisk
  confirmedBlocks : db'.contents.get .confirmedBlocks = db.contents.get .confirmedBlocks
  latestPoint : db'.contents.get .latestPoint = db.contents.get .latestPoint

theorem Database.Spares.withFaults {db : Database} {faults : Faults} (sync : faults.sync = none) :
    db.Spares (db.withFaults faults) := ⟨fun _ => sync, rfl, rfl⟩

/-- Marking spares them, whatever comes of it. -/
theorem Database.Spares.markProcessed {db : Database} (disk : db.engine.ReachesDisk) (txs : List Tx) :
    db.Spares (db.markProcessed txs).2 := by
  rcases hr : db.markProcessed txs with ⟨e | ⟨⟩, after⟩
  · rw [markProcessed_error disk.commitsAtomically hr]
    exact ⟨disk, rfl, rfl⟩
  · obtain ⟨contents, same⟩ := markProcessed_ok hr
    refine ⟨?_, ?_, ?_⟩
    · rw [same]
      exact disk
    · rw [contents, Contents.get_foldl_moved_of_ne (by decide) (by decide)]
    · rw [contents, Contents.get_foldl_moved_of_ne (by decide) (by decide)]

/-- A consumer that has nothing to do with blocks. -/
def Consumer.Sparing (consumer : Consumer κ) : Prop :=
  ∀ block txs k (db : Database), db.engine.ReachesDisk → db.Spares (consumer block txs k db).2.2

/-- The number of the transactions of a block can be stored. -/
def BlockSource.Few (source : BlockSource) : Prop :=
  ∀ header txs, source header = .ok txs → txs.length < UInt64.size

/-- A turn on which nobody but the indexer has to do with blocks. -/
def Turn.Sparing (db : Database) : Turn κ → Prop
  | event c => c.source.Few ∧ c.consumer.Sparing ∧ db.Spares (c.store db)
  | reset store | restart store => db.Spares (store db)

theorem Turn.Sparing.spares {db : Database} {turn : Turn κ} (h : turn.Sparing db) :
    db.Spares (turn.store db) := by
  cases turn with
  | event c => exact h.2.2
  | reset store | restart store => exact h

/-! ## Recording -/

/-- A confirmation stores its block under the slot, and its point as the latest one. -/
theorem Indexer.stored_of_confirm {config : IndexerConfig} {s t : Indexer} {header : BlockHeader}
    {txs : List Tx} {c : Confirmation} (ready : s.Ready config) (h : s.confirm header txs = (.ok c, t))
    (few : txs.length < UInt64.size) :
    c.block.Storable ∧
    t.database.contents.get .confirmedBlocks =
      (s.database.contents.get .confirmedBlocks).insert c.block.key (Cbor.Record.encode c.block) ∧
    t.database.contents.get .latestPoint =
      (s.database.contents.get .latestPoint).insert Key.latestPoint
        (Cbor.Record.encode c.block.point) := by
  have written := confirm_written ready h
  obtain ⟨resolved, database, hresolved, rfl, -, -⟩ := confirm_ok h
  have length : txs.length = resolved.length := (resolveInputs_ok hresolved).forall₂.length_eq
  exact ⟨Confirmation.storable_block (length ▸ few), written.confirmedBlocks, written.latestPoint⟩

/-- So it records its block behind those with earlier slots. -/
theorem Indexer.recorded_of_confirm {config : IndexerConfig} {s t : Indexer} {header : BlockHeader}
    {txs : List Tx} {c : Confirmation} {blocks : List ConfirmedBlock} (ready : s.Ready config)
    (h : s.confirm header txs = (.ok c, t)) (few : txs.length < UInt64.size)
    (recorded : Recorded blocks s.database.contents) (later : ∀ b ∈ blocks, b.slot < header.slot) :
    Recorded (blocks ++ [c.block]) t.database.contents := by
  obtain ⟨storable, block, latest⟩ := stored_of_confirm ready h few
  have slot : c.block.slot = header.slot := congrArg BlockHeader.slot (confirm_block h)
  exact recorded.append (slot ▸ later) storable block latest

namespace Session

variable {config : IndexerConfig} {t : Session κ}

/-- The blocks that the consumer was handed. -/
def blocks (t : Session κ) : List ConfirmedBlock := t.handed.map (·.1)

theorem confirmed_eq_blocks (t : Session κ) : t.confirmed = t.blocks.map ConfirmedBlock.header := by
  rw [confirmed, blocks, List.map_map]
  rfl

theorem tip_confirmed (start : Point) (t : Session κ) :
    tip start t.confirmed = (t.blocks.getLast?.map ConfirmedBlock.point).getD start := by
  rw [tip, confirmed_eq_blocks, List.getLast?_map, Option.map_map]
  rfl

/-- A turn takes back nothing that the consumer was handed. -/
theorem handed_turn (ready : t.indexer.Ready config) (turn : Turn κ) :
    ∃ more, (t.turn turn).handed = t.handed ++ more := by
  cases h : t.commit? turn with
  | none =>
    obtain ⟨-, handed, -⟩ := turn_of_none ready h
    exact ⟨[], by rw [handed, List.append_nil]⟩
  | some commit =>
    obtain ⟨c, -, -, handed, -⟩ := turn_of_some h
    exact ⟨_, handed⟩

/-- A commit is the confirmation of one more block. -/
theorem confirm_of_commit? {turn : Turn κ} {commit : Commit} (h : t.commit? turn = some commit) :
    ∃ (c : Call κ) (header : BlockHeader) (txs : List Tx) (s : Indexer), turn = .event c ∧
      c.source header = .ok txs ∧
      Indexer.confirm { t.indexer with database := turn.store t.indexer.database } header txs =
        (.ok commit.confirmation, s) ∧
      s.database = commit.store ∧ (t.turn turn).confirmed = t.confirmed ++ [header] := by
  obtain ⟨c, header, rest, txs, s, rfl, -, fetched, confirm, store⟩ := of_commit? h
  obtain ⟨-, -, -, handed, -⟩ := turn_of_some h
  refine ⟨c, header, txs, s, rfl, fetched, confirm, store, ?_⟩
  have block : commit.confirmation.block.header = header := Indexer.confirm_block confirm
  rw [confirmed, handed, List.map_append, List.map_singleton, block]
  rfl

/-- As long as slots increase, it has a later slot than all others. -/
theorem later_of_commit? {turn : Turn κ} {commit : Commit} (h : t.commit? turn = some commit)
    (rising : Rising (t.turn turn).confirmed) :
    ∃ (c : Call κ) (header : BlockHeader) (txs : List Tx) (s : Indexer), turn = .event c ∧
      c.source header = .ok txs ∧
      Indexer.confirm { t.indexer with database := turn.store t.indexer.database } header txs =
        (.ok commit.confirmation, s) ∧
      s.database = commit.store ∧ ∀ b ∈ t.blocks, b.slot < header.slot := by
  obtain ⟨c, header, txs, s, hc, fetched, confirm, store, confirmed⟩ := confirm_of_commit? h
  refine ⟨c, header, txs, s, hc, fetched, confirm, store, fun b hb => ?_⟩
  rw [confirmed, confirmed_eq_blocks] at rising
  exact rising.later b.header (List.mem_map_of_mem hb)

/-- A turn leaves what is left of the blocks that the consumer was handed by then, as long as their slots do
not decrease. -/
theorem recorded_turn (ready : t.indexer.Ready config) {turn : Turn κ}
    (sparing : turn.Sparing t.indexer.database) (recorded : Recorded (survivors t.blocks) t.contents)
    (climbing : Climbing (t.turn turn).confirmed) :
    Recorded (survivors (t.turn turn).blocks) (t.turn turn).contents := by
  obtain ⟨disk, blocks, latest⟩ := sparing.spares
  have found : Recorded (survivors t.blocks) (turn.store t.indexer.database).contents :=
    recorded.congr blocks latest
  cases h : t.commit? turn with
  | none =>
    obtain ⟨-, handed, database⟩ := turn_of_none ready h
    rw [Session.blocks, handed, contents, database disk]
    exact found
  | some commit =>
    obtain ⟨c, header, txs, s, rfl, fetched, confirm, store, confirmed⟩ := confirm_of_commit? h
    obtain ⟨c, hc, -, handed, database⟩ := turn_of_some h
    cases hc
    have reaches : commit.store.engine.ReachesDisk := by
      rw [← store, Indexer.confirm_database confirm]
      exact disk
    obtain ⟨storable, block, point⟩ :=
      Indexer.stored_of_confirm (ready.store _) confirm (sparing.1 header txs fetched)
    have slot : commit.confirmation.block.slot = header.slot :=
      congrArg BlockHeader.slot (Indexer.confirm_block confirm)
    have newest : ∀ b ∈ survivors t.blocks, b.slot ≤ commit.confirmation.block.slot := by
      rw [confirmed, confirmed_eq_blocks] at climbing
      exact fun b hb =>
        slot ▸ climbing.newest b.header (List.mem_map_of_mem (survivors_subset _ hb))
    have after := found.put newest storable block point
    have told := sparing.2.1 commit.confirmation.block commit.confirmation.txs t.state commit.store
      reaches
    rw [Session.blocks, handed, List.map_append, List.map_singleton, survivors_append_singleton, contents,
      database]
    rw [store] at after
    exact after.congr told.confirmedBlocks told.latestPoint

/-- An event without a commit leaves the latest point in memory. -/
theorem latestPoint_of_none (ready : t.indexer.Ready config) {c : Call κ}
    (h : t.commit? (.event c) = none) : (t.step c).indexer.latestPoint = t.indexer.latestPoint := by
  have handed : (t.step c).handed = t.handed := (turn_of_none ready h).2.1
  have same : (t.step c).confirmed = t.confirmed := by
    rw [confirmed, handed]
    rfl
  have moved := moved_step t c
  generalize c.event = event at moved
  generalize (t.call c).1 = answer at moved
  cases moved with
  | confirms header oldest rest answer effective full oldest_eq confirmed =>
    rw [same] at confirmed
    exact absurd (congrArg List.length confirmed) (by simp)
  | waits _ _ _ _ latest | fails _ _ _ _ _ _ latest | inside _ _ _ _ _ _ _ _ _ latest
  | latest _ _ _ _ _ latest | fatal _ _ _ _ _ latest => exact latest

/-- If the commit of an event waits for the disk in vain, the store records the block behind the others, but
nothing has changed for the consumer and in memory. -/
theorem recorded_of_vain (ready : t.indexer.Ready config) (recorded : Recorded t.blocks t.contents)
    (rising : Rising (t.confirmed ++ t.pending)) {c : Call κ} (few : c.source.Few)
    (same : (c.store t.indexer.database).contents = t.contents) {written : Commit}
    (h : t.written? (.event c) = some written) (h' : t.commit? (.event c) = none) :
    (t.step c).blocks = t.blocks ∧ (t.step c).indexer.latestPoint = t.indexer.latestPoint ∧
      Recorded (t.blocks ++ [written.confirmation.block]) (t.step c).contents := by
  have handed : (t.step c).handed = t.handed := (turn_of_none ready h').2.1
  have turned := turn_turned ready (.event c)
  rw [h, h'] at turned
  obtain ⟨c, oldest, rest, txs, s, hc, pending, fetched, confirm, store⟩ := of_written? h
  cases hc
  cases turned with
  | vain _ e waits left =>
    have later : ∀ b ∈ t.blocks, b.slot < oldest.slot := by
      rw [pending, confirmed_eq_blocks] at rising
      exact fun b hb => (List.pairwise_append.1 rising).2.2 b.header (List.mem_map_of_mem hb) oldest
        List.mem_cons_self
    refine ⟨by rw [blocks, handed]; rfl, latestPoint_of_none ready h', ?_⟩
    rw [contents, show (t.step c).indexer.database = _ from left, store, Database.contents_withContents]
    refine Indexer.recorded_of_confirm (ready.store _) confirm (few oldest txs fetched) ?_ later
    exact same.symm ▸ recorded

/-- Where slots increase, no block takes the place of another one. -/
theorem survivors_blocks (rising : Rising t.confirmed) : survivors t.blocks = t.blocks := by
  rw [confirmed_eq_blocks, Rising, List.pairwise_map] at rising
  exact survivors_of_rising rising

end Session

/-! ## Courses -/

namespace Course

/-- A course begins with a new indexer. -/
def start (s : Indexer) (k : κ) : Course κ := { session := .since s k }

/-- A new indexer takes over the store. -/
def renew (m : Course κ) (s : Indexer) : Course κ :=
  { session := { m.session with indexer := s }, settled := m.session.confirmed }

/-- Takes turns in order. -/
def turns (m : Course κ) (turns : List (Turn κ)) : Course κ := turns.foldl turn m

/-- What a course comes to through turns, and through new indexers, possibly with other configurations, over
the store that the earlier ones left. The slots of the chain that is announced increase, and are above those
that are settled. -/
inductive Leads (config₀ : IndexerConfig) (m₀ : Course κ) : IndexerConfig → Course κ → Prop
  | refl : Leads config₀ m₀ config₀ m₀
  | turn {config : IndexerConfig} {m : Course κ} (h : Leads config₀ m₀ config m) (turn : Turn κ)
      (sparing : turn.Sparing m.session.indexer.database) (rising : Rising (m.turn turn).chain) :
      Leads config₀ m₀ config (m.turn turn)
  | renew {config config' : IndexerConfig} {m : Course κ} {db : Database} {s : Indexer}
      (h : Leads config₀ m₀ config m) (spares : m.session.indexer.database.Spares db)
      (new : Indexer.new config' db = .ok s) : Leads config₀ m₀ config' (m.renew s)

/-- Memory and store agree about what has been confirmed. -/
structure Agrees (config : IndexerConfig) (m : Course κ) : Prop where
  ready : m.session.indexer.Ready config
  onTrack : m.OnTrack
  rising : Rising m.chain
  recorded : Recorded m.session.blocks m.session.contents
  latest : m.isReset = true → ∃ start, m.session.indexer.latestPoint = tip start m.session.confirmed

namespace Agrees

variable {config : IndexerConfig} {m : Course κ}

theorem start {db : Database} {s : Indexer} (new : Indexer.new config db = .ok s)
    (empty : db.contents = .empty) (k : κ) : (start s k).Agrees config := by
  have ready := Indexer.Ready.new new
  obtain rfl := Indexer.new_ok new
  refine ⟨ready, .anew rfl rfl rfl, .nil, ?_, nofun⟩
  change Recorded [] db.contents
  rw [empty]
  exact .empty

theorem renew (h : m.Agrees config) {config' : IndexerConfig} {db : Database} {s : Indexer}
    (spares : m.session.indexer.database.Spares db) (new : Indexer.new config' db = .ok s) :
    (m.renew s).Agrees config' := by
  have ready := Indexer.Ready.new new
  have rising := h.onTrack.rising h.rising
  obtain rfl := Indexer.new_ok new
  refine ⟨ready, .anew rfl rfl rfl, ?_, ?_, nofun⟩
  · rwa [chain, show (m.renew _).announced = [] from rfl, List.append_nil]
  · exact h.recorded.congr spares.confirmedBlocks spares.latestPoint

/-- A reset picks the point of the last block. -/
theorem latest_reset (h : m.Agrees config) {store : Database → Database}
    (spares : m.session.indexer.database.Spares (store m.session.indexer.database))
    {stored : Option Point} (found : (store m.session.indexer.database).latestPoint? = .ok stored)
    (start : Point) : stored.getD start = tip start m.session.confirmed := by
  have recorded : Recorded m.session.blocks (store m.session.indexer.database).contents :=
    h.recorded.congr spares.confirmedBlocks spares.latestPoint
  rw [Session.tip_confirmed, Database.latestPoint?_of_ok found recorded.latest]

theorem turn (h : m.Agrees config) {turn : Turn κ}
    (sparing : turn.Sparing m.session.indexer.database) (rising : Rising (m.turn turn).chain) :
    (m.turn turn).Agrees config := by
  have onTrack := h.onTrack.turn h.ready h.rising.append_right.differ turn
  have confirmed := onTrack.rising rising
  refine ⟨?_, onTrack, rising, ?_, ?_⟩
  · rw [session_turn]
    exact Session.ready_turn h.ready turn
  · have recorded := Session.recorded_turn h.ready sparing
      ((Session.survivors_blocks (h.onTrack.rising h.rising)).symm ▸ h.recorded)
      (session_turn m turn ▸ confirmed).climbing
    rw [session_turn] at confirmed ⊢
    rwa [Session.survivors_blocks confirmed] at recorded
  · cases turn with
    | event c =>
      intro isReset
      obtain ⟨start, latest⟩ := h.latest isReset
      exact ⟨start, Session.latestPoint_step latest c⟩
    | reset store =>
      obtain ⟨e, -, hr⟩ | ⟨stored, point, found, rfl, hr⟩ := (m.found store).reset_cases
      · rw [turn_reset_error hr]
        exact h.latest
      · rw [turn_reset_ok hr]
        exact fun _ => ⟨_, h.latest_reset sparing found _⟩
    | restart store => exact nofun

theorem leads {config' : IndexerConfig} {m' : Course κ} (h : m.Agrees config)
    (leads : m.Leads config config' m') : m'.Agrees config' := by
  induction leads with
  | refl => exact h
  | turn _ turn sparing rising ih => exact ih.turn sparing rising
  | renew _ spares new ih => exact ih.renew spares new

theorem blocks_of_leads {config' : IndexerConfig} {m' : Course κ} (h : m.Agrees config)
    (leads : m.Leads config config' m') : ∃ more, m'.session.blocks = m.session.blocks ++ more := by
  induction leads with
  | refl => exact ⟨[], (List.append_nil _).symm⟩
  | turn leads turn sparing rising ih =>
    obtain ⟨more, before⟩ := ih
    obtain ⟨new, after⟩ := Session.handed_turn (h.leads leads).ready turn
    refine ⟨more ++ new.map (·.1), ?_⟩
    rw [session_turn, Session.blocks, after, List.map_append, ← List.append_assoc, ← before]
    rfl
  | renew _ spares new ih => exact ih

/-- After a reset, memory has the point of the last block. -/
theorem latestPoint_eq (h : m.Agrees config) (isReset : m.isReset = true) {last : ConfirmedBlock}
    (hlast : m.session.blocks.getLast? = some last) :
    m.session.indexer.latestPoint = last.point := by
  obtain ⟨start, latest⟩ := h.latest isReset
  rw [latest, Session.tip_confirmed, hlast]
  rfl

end Agrees

/-- Turns on which nobody else has to do with blocks. -/
theorem Leads.turns {config₀ config : IndexerConfig} {m₀ m : Course κ} (h : Leads config₀ m₀ config m)
    {turns : List (Turn κ)} (sparing : ∀ turn ∈ turns, ∀ db, turn.Sparing db)
    (rising : ∀ n ≤ turns.length, Rising (m.turns (turns.take n)).chain) :
    Leads config₀ m₀ config (m.turns turns) := by
  induction turns generalizing m with
  | nil => exact h
  | cons turn turns ih =>
    obtain ⟨first, others⟩ := List.forall_mem_cons.1 sparing
    have here : Rising (m.turn turn).chain := rising 1 (Nat.succ_le_succ (Nat.zero_le _))
    exact ih (h.turn turn (first _) here) others fun n hn => rising (n + 1) (Nat.succ_le_succ hn)

end Course

/-- Take a store that is empty at first, and any runs of indexers over it, one after the other and each with
a configuration of its own. They may be reset and restarted at any time, sources, the store and consumers
may fail, and consumers and others may use the store for anything but blocks. A commit that fails has no
effect. The slots of the announced headers increase along the chain, and are above those of the stored blocks.

Once a block is confirmed, the latest point of the store and the point of the last stored block are its
point, and so is the latest point in memory, if there was a reset. The stored blocks are those that were
confirmed, in this order. Whatever happens later, they are stored as they are, before the later ones.

If now the commit of an event waits for the disk in vain, and so fails with an effect, the latest point in
memory is left behind: the store has one more block, and the point of this block as the latest one. -/
theorem progress_agrees {config₀ config config' : IndexerConfig} {empty : Database} {s : Indexer}
    (new : Indexer.new config₀ empty = .ok s) (nothing : empty.contents = .empty) (k : κ)
    {m m' : Course κ} (leads : (Course.start s k).Leads config₀ config m)
    (later : m.Leads config config' m') :
    let blocks := m.session.blocks
    (∀ last, blocks.getLast? = some last →
      (m.isReset = true → m.session.indexer.latestPoint = last.point) ∧
      ∀ db : Database, db.Sound → db.contents = m.session.contents →
        db.latestPoint? = .ok (some last.point) ∧ db.latestBlocks 1 = .ok [last]) ∧
    (∀ db : Database, db.Sound → db.contents = m.session.contents → ∀ max,
      db.blocksFrom 0 max = .ok (blocks.take max)) ∧
    (∃ more, m'.session.blocks = blocks ++ more ∧
      ∀ db : Database, db.Sound → db.contents = m'.session.contents → ∀ max,
        db.blocksFrom 0 max = .ok ((blocks ++ more).take max)) ∧
    ∀ (c : Call κ) (written : Commit), c.source.Few →
      (c.store m.session.indexer.database).contents = m.session.contents →
      m.session.written? (.event c) = some written → m.session.commit? (.event c) = none →
        let t := m.session.step c
        t.blocks = blocks ∧ t.indexer.latestPoint = m.session.indexer.latestPoint ∧
          ∀ db : Database, db.Sound → db.contents = t.contents →
            db.latestPoint? = .ok (some written.confirmation.block.point) ∧
              ∀ max, db.blocksFrom 0 max = .ok ((blocks ++ [written.confirmation.block]).take max) := by
  intro blocks
  have agrees : m.Agrees config := (Course.Agrees.start new nothing k).leads leads
  have agrees' : m'.Agrees config' := agrees.leads later
  obtain ⟨more, grown⟩ := agrees.blocks_of_leads later
  refine ⟨fun last hlast => ⟨fun isReset => agrees.latestPoint_eq isReset hlast, fun db sound same => ?_⟩,
    fun db sound same max => ?_, ⟨more, grown, fun db sound same max => ?_⟩,
    fun c written few same hw hc => ?_⟩
  · have recorded : Recorded blocks db.contents := same ▸ agrees.recorded
    obtain ⟨front, hblocks⟩ := List.getLast?_eq_some_iff.1 hlast
    refine ⟨?_, ?_⟩
    · rw [recorded.latestPoint? sound, hlast]
      rfl
    · rw [recorded.latestBlocks sound, hblocks]
      simp
  · have recorded : Recorded blocks db.contents := same ▸ agrees.recorded
    exact recorded.blocksFrom_zero sound max
  · have recorded : Recorded (blocks ++ more) db.contents := grown ▸ same ▸ agrees'.recorded
    exact recorded.blocksFrom_zero sound max
  · have rising : Rising (m.session.confirmed ++ m.session.pending) :=
      agrees.onTrack.chain_eq ▸ agrees.rising
    obtain ⟨told, memory, recorded⟩ :=
      Session.recorded_of_vain agrees.ready agrees.recorded rising few same hw hc
    refine ⟨told, memory, fun db sound same => ?_⟩
    rw [← same] at recorded
    refine ⟨?_, recorded.blocksFrom_zero sound⟩
    rw [recorded.latestPoint? sound, List.getLast?_concat]
    rfl

/-! ## A run -/

/-- The source has one transaction of each block. The consumer marks it, and refuses the block. -/
def refusing : Surroundings Unit where
  source header := .ok [Fixture.tx header.slot 0 [] [Fixture.output "alice" 5]]
  consumer _ txs k db := (.error "refused", k, (db.markProcessed txs).2)
  store := Database.withFaults .never

/-- Commits fail. -/
def diskFull : Faults := { commit := fun _ => some (.io "disk full") }

/-- The same, while commits fail. -/
def refusingFull : Surroundings Unit := { refusing with store := Database.withFaults diskFull }

/-- A commit fails, the chain goes back to the confirmed block, and a fork is confirmed instead. -/
def forkedTurns : List (Turn Unit) :=
  let forward (slot : UInt64) : ChainEvent := .rollForward (Fixture.header slot)
  [.reset (Database.withFaults .never), .event ⟨refusing, forward 1⟩, .event ⟨refusing, forward 2⟩,
    .event ⟨refusingFull, forward 3⟩, .event ⟨refusing, .rollBackward (Fixture.point 1)⟩,
    .event ⟨refusing, forward 3⟩, .event ⟨refusing, forward 4⟩]

/-- Further blocks after another reset. -/
def furtherTurns : List (Turn Unit) :=
  .reset (Database.withFaults .never) ::
    [5, 6, 7].map fun slot => .event ⟨refusing, .rollForward (Fixture.header slot)⟩

theorem refusing_sparing (event : ChainEvent) (db : Database) :
    Turn.Sparing db (.event ⟨refusing, event⟩) ∧ Turn.Sparing db (.event ⟨refusingFull, event⟩) := by
  have few : refusing.source.Few := by
    rintro header _ ⟨⟩
    exact (by decide : 1 < UInt64.size)
  have consumer : refusing.consumer.Sparing := fun _ txs _ _ disk => .markProcessed disk txs
  exact ⟨⟨few, consumer, .withFaults rfl⟩, few, consumer, .withFaults rfl⟩

/-- The blocks of two slots are confirmed with a fork in between. A new indexer with another depth goes on, and
leaves them before the one that it confirms. -/
theorem progress_agrees_forkedTurns :
    let s : Indexer :=
      { config := { confirmationDepth := 1 }, database := .new .memory, window := .empty 1 }
    let m := (Course.start s ()).turns forkedTurns
    let s' : Indexer :=
      { config := { confirmationDepth := 2 }, database := m.session.indexer.database, window := .empty 2 }
    let m' := (m.renew s').turns furtherTurns
    let last := ConfirmedBlock.ofHeader (Fixture.header 3) [Fixture.txHash 3 0]
    let db := (Database.new .memory).withContents m.session.contents
    m.session.blocks.getLast? = some last ∧ m.session.indexer.latestPoint = last.point ∧
      db.latestPoint? = .ok (some last.point) ∧ db.latestBlocks 1 = .ok [last] ∧
      m.session.blocks.map (·.slot) = [1, 3] ∧ m'.session.blocks.map (·.slot) = [1, 3, 5] ∧
      ∃ more, m'.session.blocks = m.session.blocks ++ more := by
  intro s m s' m' last db
  have new : Indexer.new { confirmationDepth := 1 } (.new .memory) = .ok s := rfl
  have new' : Indexer.new { confirmationDepth := 2 } m.session.indexer.database = .ok s' := rfl
  have forked : ∀ turn ∈ forkedTurns, ∀ db, turn.Sparing db := by
    simp only [forkedTurns, List.forall_mem_cons]
    exact ⟨fun _ => .withFaults rfl, fun _ => (refusing_sparing ..).1, fun _ => (refusing_sparing ..).1,
      fun _ => (refusing_sparing ..).2, fun _ => (refusing_sparing ..).1,
      fun _ => (refusing_sparing ..).1, fun _ => (refusing_sparing ..).1, nofun⟩
  have further : ∀ turn ∈ furtherTurns, ∀ db, turn.Sparing db := by
    simp only [furtherTurns, List.map_cons, List.forall_mem_cons]
    exact ⟨fun _ => .withFaults rfl, fun _ => (refusing_sparing ..).1, fun _ => (refusing_sparing ..).1,
      fun _ => (refusing_sparing ..).1, nofun⟩
  have leads : (Course.start s ()).Leads { confirmationDepth := 1 } { confirmationDepth := 1 } m :=
    Course.Leads.refl.turns forked (by decide +kernel)
  have memory : m.session.indexer.database.engine.medium ≠ .durable true := by decide +kernel
  have spares : m.session.indexer.database.Spares m.session.indexer.database :=
    ⟨fun durable => absurd durable memory, rfl, rfl⟩
  have later : m.Leads { confirmationDepth := 1 } { confirmationDepth := 2 } m' :=
    (Course.Leads.refl.renew spares new').turns further (by decide +kernel)
  have hlast : m.session.blocks.getLast? = some last := by decide +kernel
  obtain ⟨agree, -, ⟨more, grown, -⟩, -⟩ := progress_agrees new rfl () leads later
  obtain ⟨latest, stored⟩ := agree last hlast
  obtain ⟨point, block⟩ := stored db ((Database.Sound.new .memory).withContents _)
    (Database.contents_withContents ..)
  exact ⟨hlast, latest (by decide +kernel), point, block, by decide +kernel, by decide +kernel, more,
    grown⟩

/-- The block of the fifth slot is written in vain after that of the first one. Its point is the latest one in the
store, but not in memory. After a fork the block of the second slot is confirmed. It is stored before that of the
fifth one, which still is the last one. -/
theorem unsynced_progress_differs :
    let config : IndexerConfig := { confirmationDepth := 1 }
    let s : Indexer := { config, database := .new (.durable true), window := .empty 1 }
    let turns := unsyncedTurns fun header => [Fixture.tx header.slot 0 [] []]
    let m (n : Nat) := (Course.start s ()).turns (turns.take n)
    let stored (n : Nat) := (Database.new .memory).withContents (m n).session.contents
    let views (n : Nat) := ((m n).session.confirmed.map (·.slot), (m n).session.indexer.latestPoint,
      (stored n).latestPoint?.toOption.join, ((stored n).latestBlocks 1).toOption.map (·.map (·.slot)),
      ((stored n).blocksFrom 0 5).toOption.map (·.map (·.slot)))
    config.fault? = none ∧ (∀ n ≤ turns.length, Rising (m n).chain) ∧ (m 7).isReset = true ∧
      views 3 = ([1], Fixture.point 1, some (Fixture.point 1), some [1], some [1]) ∧
      views 4 = ([1], Fixture.point 1, some (Fixture.point 5), some [5], some [1, 5]) ∧
      views 7 = ([1, 2], Fixture.point 2, some (Fixture.point 2), some [5], some [1, 2, 5]) := by
  intro config s turns m stored views
  exact ⟨by decide, by decide +kernel, by decide +kernel, by decide +kernel, by decide +kernel,
    by decide +kernel⟩

end ChainIndex
