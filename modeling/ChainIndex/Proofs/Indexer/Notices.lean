import ChainIndex.Proofs.Indexer.Origins
import ChainIndex.Proofs.Indexer.Writes
import ChainIndex.Proofs.Storage.Key

/-!
# What the consumer is told, and when

* `Consumer.noting`: a consumer that also keeps what it is told, each time with the store that it finds
  (`Notice`).
* `Notice.Recorded`: that store holds what the consumer is told (`Session.commits_recorded`).
* `Turn.BringsNothing`: consumers and others write nothing of their own, apart from marks. Then a store comes
  from what was written so far (`Session.madeOf_turns`).
* `notices_eq_commits`: so the consumer is told of every commit once, in order, and of nothing else; it finds it in
  the store, and nothing that was not written by then. `later_block_noticed`: but what was written in vain is there,
  of which nobody was told.
-/

namespace ChainIndex

variable {κ : Type}

/-- What a consumer is told, with the store that it finds then. -/
structure Notice where
  block : ConfirmedBlock
  txs : List Tx
  store : Database

/-- A consumer that also keeps what it is told. -/
def Consumer.noting (consumer : Consumer κ) : Consumer (κ × List Notice) :=
  fun block txs (k, notices) db =>
    let (result, k, after) := consumer block txs k db
    (result, (k, notices ++ [⟨block, txs, db⟩]), after)

namespace Turn

/-- The turn with a consumer that also keeps what it is told. -/
def noting : Turn κ → Turn (κ × List Notice)
  | event c => event ⟨⟨c.source, c.consumer.noting, c.store⟩, c.event⟩
  | reset store => reset store
  | restart store => restart store

/-- Transactions of a block have different positions in it. -/
def Positioned : Turn κ → Prop
  | event c => ∀ header txs, c.source header = .ok txs → (txs.map (·.indexInBlock)).Nodup
  | reset _ | restart _ => True

/-- Consumers and others write nothing of their own: what they leave was there before, but outputs may have been
marked as used, and transactions as processed. A consumer may rely on it that it finds the transactions that it is
told of among the unprocessed ones. -/
def BringsNothing : Turn κ → Prop
  | event c =>
    (∀ block txs k (db : Database),
      (∀ tx ∈ txs, db.contents.lookup .unprocessedTxs tx.key = some (Cbor.Record.encode tx)) →
        db.contents.MadeOf [] (c.consumer block txs k db).2.2.contents) ∧
      ∀ db : Database, db.contents.MadeOf [] (c.store db).contents
  | reset store | restart store => ∀ db : Database, db.contents.MadeOf [] (store db).contents

theorem Positioned.noting {turn : Turn κ} (h : turn.Positioned) : turn.noting.Positioned := by
  cases turn <;> exact h

theorem Quiet.noting {turn : Turn κ} (h : turn.Quiet) : turn.noting.Quiet := by
  cases turn with
  | event c => exact ⟨fun block txs k db => h.1 block txs k.1 db, h.2⟩
  | reset store | restart store => exact h

theorem BringsNothing.noting {turn : Turn κ} (h : turn.BringsNothing) : turn.noting.BringsNothing := by
  cases turn with
  | event c => exact ⟨fun block txs k db => h.1 block txs k.1 db, h.2⟩
  | reset store | restart store => exact h

theorem BringsNothing.store {turn : Turn κ} (h : turn.BringsNothing) (db : Database) :
    db.contents.MadeOf [] (turn.store db).contents := by
  cases turn with
  | event c => exact h.2 db
  | reset store | restart store => exact h db

end Turn

/-- What there is to tell about a commit. -/
def Commit.notice (commit : Commit) : Notice :=
  ⟨commit.confirmation.block, commit.confirmation.txs, commit.store⟩

/-! ## What the store holds after a commit -/

/-- What looking up inputs does not touch stays. -/
theorem ResolvedTxs.map_eq {ε β : Type} {lookup : OutputRef → Except ε TxOutput}
    {produced : List ReferencedOutput} {txs txs' : List Tx}
    (h : ResolvedTxs lookup produced txs txs') {f : Tx → β}
    (keeps : ∀ (tx : Tx) inputs, f { tx with inputs } = f tx) : txs'.map f = txs.map f := by
  induction h with
  | nil => rfl
  | cons head _ ih => rw [List.map_cons, List.map_cons, ih, head.eq_inputs, keeps]

/-- Transactions at different positions have different keys. -/
theorem Tx.nodup_keys {txs : List Tx} (h : (txs.map (·.indexInBlock)).Nodup) :
    (txs.map Tx.key).Nodup :=
  List.pairwise_map.2 ((List.pairwise_map.1 h).imp fun ne eq => ne (key_inj eq).2)

/-- The transactions that a confirmation records have different keys if they have different positions. -/
theorem Indexer.nodup_keys_of_confirm {s t : Indexer} {header : BlockHeader} {txs : List Tx}
    {c : Confirmation} (h : s.confirm header txs = (.ok c, t))
    (positions : (txs.map (·.indexInBlock)).Nodup) : (c.txs.map Tx.key).Nodup := by
  obtain ⟨resolved, database, hresolved, rfl, -, -⟩ := confirm_ok h
  rw [← (resolveInputs_ok hresolved).map_eq fun _ _ => rfl] at positions
  exact Tx.nodup_keys (positions.sublist (List.filter_sublist.map _))

/-- The store that the consumer finds holds what it is told: the block under its slot, its point as the
latest one, and each transaction, its inputs as they were looked up, as unprocessed under its key. -/
structure Notice.Recorded (n : Notice) : Prop where
  block : n.store.contents.lookup .confirmedBlocks (Key.ofSlot n.block.slot) =
    some (Cbor.Record.encode n.block)
  latestPoint : n.store.contents.lookup .latestPoint Key.latestPoint =
    some (Cbor.Record.encode n.block.point)
  txs : ∀ tx ∈ n.txs, n.store.contents.lookup .unprocessedTxs tx.key = some (Cbor.Record.encode tx)

theorem Confirmation.Written.recorded {c : Confirmation} {old : Contents} {db : Database}
    (h : c.Written old db.contents) (distinct : (c.txs.map Tx.key).Nodup) :
    Notice.Recorded ⟨c.block, c.txs, db⟩ where
  block := by
    rw [Contents.lookup, h.confirmedBlocks]
    exact (KeyMap.get?_insert ..).trans (if_pos rfl)
  latestPoint := by
    rw [Contents.lookup, h.latestPoint]
    exact (KeyMap.get?_insert ..).trans (if_pos rfl)
  txs tx htx := by
    rw [Contents.lookup, h.unprocessedTxs]
    exact KeyMap.get?_insertTxs_of_mem distinct htx

/-! ## Commits of a session -/

namespace Session

variable {config : IndexerConfig} {t : Session κ} {turn : Turn κ} {commit : Commit}

/-- What the consumer was told so far. -/
def notices (t : Session (κ × List Notice)) : List Notice := t.state.2

/-- After a commit the store holds it. -/
theorem commit?_recorded (ready : t.indexer.Ready config) (positioned : turn.Positioned)
    (h : t.commit? turn = some commit) : commit.notice.Recorded := by
  obtain ⟨c, oldest, rest, txs, s, rfl, -, fetched, confirm, database⟩ := of_commit? h
  have distinct := Indexer.nodup_keys_of_confirm confirm (positioned oldest txs fetched)
  have recorded := (Indexer.confirm_written (ready.store _) confirm).recorded distinct
  rwa [database] at recorded

theorem commits_recorded (ready : t.indexer.Ready config) {turns : List (Turn κ)}
    (positioned : ∀ turn ∈ turns, turn.Positioned) :
    ∀ commit ∈ t.commits turns, commit.notice.Recorded := by
  induction turns generalizing t with
  | nil => exact nofun
  | cons turn turns ih =>
    intro commit mem
    rcases List.mem_append.1 mem with here | later
    · exact commit?_recorded ready (positioned turn List.mem_cons_self) (Option.mem_toList.1 here)
    · exact ih (ready_turn ready turn) (fun u hu => positioned u (List.mem_cons_of_mem _ hu)) commit
        later

/-- On a turn the consumer is told of its commit, and else nothing. -/
theorem notices_turn {t : Session (κ × List Notice)} (ready : t.indexer.Ready config)
    (turn : Turn κ) : (t.turn turn.noting).notices =
      t.notices ++ ((t.commit? turn.noting).map Commit.notice).toList := by
  cases h : t.commit? turn.noting with
  | none => rw [notices, (turn_of_none ready h).1]; exact (List.append_nil _).symm
  | some commit =>
    obtain ⟨c, hc, state, -, -⟩ := turn_of_some h
    cases turn with
    | event call => cases hc; rw [notices, state]; rfl
    | reset store => cases hc
    | restart store => cases hc

theorem notices_turns {t : Session (κ × List Notice)} (ready : t.indexer.Ready config)
    (turns : List (Turn κ)) : (t.turns (turns.map Turn.noting)).notices =
      t.notices ++ (t.commits (turns.map Turn.noting)).map Commit.notice := by
  induction turns generalizing t with
  | nil => exact (List.append_nil _).symm
  | cons turn turns ih =>
    have later := ih (ready_turn ready turn.noting)
    rw [notices_turn ready turn, List.append_assoc] at later
    refine later.trans ?_
    rw [List.map_cons, commits, List.map_append]
    cases t.commit? turn.noting <;> rfl

/-! ## What else it holds -/

/-- If nobody else writes to the store, it is what the changes of all that was written leave, made one after the
other. -/
theorem written_sequential (ready : t.indexer.Ready config) {turns : List (Turn κ)}
    (quiet : ∀ turn ∈ turns, turn.Quiet) :
    (((t.written turns).flatMap fun c => c.confirmation.ops config.softDelete).forM
      BatchOp.direct : Direct StoreError Unit) t.contents = .ok ((), (t.turns turns).contents) := by
  refine quiet_turns ready quiet (P := fun written c =>
    ((written.flatMap fun c => c.confirmation.ops config.softDelete).forM BatchOp.direct :
      Direct StoreError Unit) t.contents = .ok ((), c)) rfl fun u turn commit before ready mem hw sofar => ?_
  have direct := written?_direct ready hw
  rw [(quiet turn mem).store] at direct
  rw [List.flatMap_append, List.flatMap_singleton]
  exact Direct.forM_append_ok sofar direct

/-- What a turn writes comes from what was there, and from its confirmation. -/
theorem madeOf_written? (ready : t.indexer.Ready config) (nothing : turn.BringsNothing)
    (h : t.written? turn = some commit) :
    t.contents.MadeOf [commit.confirmation] commit.store.contents :=
  (nothing.store _).trans (Confirmation.madeOf (written?_direct ready h))

/-- So does what a turn leaves, if nobody else brings anything. -/
theorem madeOf_turn (ready : t.indexer.Ready config) (positioned : turn.Positioned)
    (nothing : turn.BringsNothing) :
    t.contents.MadeOf ((t.written? turn).toList.map (·.confirmation)) (t.turn turn).contents := by
  have turned := turn_turned ready turn
  generalize hw : t.written? turn = written at turned ⊢
  generalize hc : t.commit? turn = committed at turned
  cases turned with
  | idle left =>
    rw [show (t.turn turn).contents = _ from congrArg Database.contents left]
    exact nothing.store _
  | committed commit =>
    have recorded := (commit?_recorded ready positioned hc).txs
    obtain ⟨c, rfl, -, -, database⟩ := turn_of_some hc
    rw [show (t.turn (.event c)).contents = _ from congrArg Database.contents database]
    exact (madeOf_written? ready nothing hw).trans (nothing.1 _ _ _ commit.store recorded)
  | vain commit e waits left =>
    rw [show (t.turn turn).contents = _ from congrArg Database.contents left]
    exact madeOf_written? ready nothing hw

theorem madeOf_turns (ready : t.indexer.Ready config) {turns : List (Turn κ)}
    (positioned : ∀ turn ∈ turns, turn.Positioned) (nothing : ∀ turn ∈ turns, turn.BringsNothing) :
    t.contents.MadeOf ((t.written turns).map (·.confirmation)) (t.turns turns).contents := by
  induction turns generalizing t with
  | nil => exact .refl _
  | cons turn turns ih =>
    obtain ⟨here, others⟩ := List.forall_mem_cons.1 positioned
    obtain ⟨here', others'⟩ := List.forall_mem_cons.1 nothing
    rw [written, List.map_append]
    exact (madeOf_turn ready here here').trans (ih (ready_turn ready turn) others others')

end Session

/-- Take any course of an indexer through announced headers, rollbacks, resets and restarts. Sources, the
store and the consumer may fail, and others may use the store. The transactions of a block stand at
different positions.

At every moment the consumer has been told of the commits so far, once each and in order, and of nothing
else, whatever it answered. A commit has carried out the batch of the oldest header that waited, and the
store is then left to the consumer. A turn that writes nothing leaves the store as it found it. One that writes the
batch without a commit has waited for the disk in vain, and leaves it as the batch does. The store that the consumer
finds holds what it is told.

If consumers and others bring nothing of their own, all in that store comes from what was there at the beginning and
from the batches that were written so far, this one included; and if they do not write at all, it is what the
changes of these batches leave. If no commit waits for the disk in vain, the batches that are written are those
that are committed, so the store has nothing of a later block. -/
theorem notices_eq_commits {config : IndexerConfig} {s : Indexer} (reachable : s.Reachable config)
    (k : κ) (turns : List (Turn κ)) (positioned : ∀ turn ∈ turns, turn.Positioned) :
    let start := Session.since s (k, ([] : List Notice))
    let commits := start.commits (turns.map Turn.noting)
    (∀ front, front <+: turns → (start.turns (front.map Turn.noting)).notices =
      (start.commits (front.map Turn.noting)).map Commit.notice) ∧
    (∀ front turn, front ++ [turn] <+: turns →
      let t := start.turns (front.map Turn.noting)
      let found := turn.store t.indexer.database
      let left := (t.turn turn.noting).indexer.database
      (∀ commit, t.commit? turn.noting = some commit →
        (∃ rest, t.pending = commit.confirmation.block.header :: rest) ∧
        ((commit.confirmation.ops config.softDelete).foldl BatchWriter.push .empty).execute found =
          (.ok (), .empty, commit.store) ∧
        ∃ c, turn = .event c ∧ left = (c.consumer commit.confirmation.block commit.confirmation.txs
          t.state.1 commit.store).2.2) ∧
      (t.written? turn.noting = none → left = found) ∧
      (∀ written, t.written? turn.noting = some written → t.commit? turn.noting = none →
        (∃ e, found.engine.vainWait? = some e) ∧ left = written.store ∧
        ((written.confirmation.ops config.softDelete).forM BatchOp.direct : Direct StoreError Unit)
          found.contents = .ok ((), written.store.contents))) ∧
    (∀ commit ∈ commits, commit.notice.Recorded) ∧
    (∀ front turn commit, front ++ [turn] <+: turns →
      let t := start.turns (front.map Turn.noting)
      let written := start.written (front.map Turn.noting) ++ [commit]
      t.commit? turn.noting = some commit →
        ((∀ turn ∈ turns, turn.BringsNothing) →
          s.database.contents.MadeOf (written.map (·.confirmation)) commit.store.contents) ∧
        ((∀ turn ∈ turns, turn.Quiet) →
          ((written.flatMap fun c => c.confirmation.ops config.softDelete).forM BatchOp.direct :
            Direct StoreError Unit) s.database.contents = .ok ((), commit.store.contents)) ∧
        (start.ReachesDisk (front.map Turn.noting) →
          written = start.commits (front.map Turn.noting) ++ [commit])) := by
  intro start commits
  have ready : start.indexer.Ready config := reachable.ready
  refine ⟨fun front _ => Session.notices_turns ready front, fun front turn _ => ?_, ?_, ?_⟩
  · intro t found left
    have ready : t.indexer.Ready config := Session.ready_turns ready _
    have hfound : found = turn.noting.store t.indexer.database := by cases turn <;> rfl
    rw [hfound]
    have turned := Session.turn_turned ready turn.noting
    refine ⟨fun commit h => ?_, fun h => ?_, fun written h h' => ?_⟩
    · obtain ⟨pending, executed⟩ := Session.commit?_executes ready h
      obtain ⟨c, hc, -, -, database⟩ := Session.turn_of_some h
      refine ⟨pending, executed, ?_⟩
      cases turn with
      | event call => cases hc; exact ⟨call, rfl, database⟩
      | reset store => cases hc
      | restart store => cases hc
    · generalize t.commit? turn.noting = committed at turned
      rw [h] at turned
      cases turned with
      | idle unchanged => exact unchanged
    · have direct := Session.written?_direct ready h
      rw [h, h'] at turned
      cases turned with
      | vain _ e waits unfinished => exact ⟨⟨e, waits⟩, unfinished, direct⟩
  · exact Session.commits_recorded ready
      (List.forall_mem_map.2 fun turn mem => (positioned turn mem).noting)
  · intro front turn commit hf t written h
    have ready : t.indexer.Ready config := Session.ready_turns ready _
    have hw := Session.written?_of_commit? ready h
    have before : ∀ u ∈ front, u ∈ turns := fun u hu => hf.subset (List.mem_append_left _ hu)
    have here : turn ∈ turns := hf.subset (List.mem_append_right _ (List.mem_singleton_self turn))
    refine ⟨fun nothing => ?_, fun quiet => ?_, fun disk => ?_⟩
    · have sofar := Session.madeOf_turns reachable.ready (t := start)
        (List.forall_mem_map.2 fun u hu => (positioned u (before u hu)).noting)
        (List.forall_mem_map.2 fun u hu => (nothing u (before u hu)).noting)
      rw [List.map_append]
      exact sofar.trans (Session.madeOf_written? ready (nothing turn here).noting hw)
    · have sofar := Session.written_sequential reachable.ready (t := start)
        (List.forall_mem_map.2 fun u hu => (quiet u (before u hu)).noting)
      have direct := Session.written?_direct ready hw
      rw [(quiet turn here).noting.store] at direct
      rw [List.flatMap_append, List.flatMap_singleton]
      exact Direct.forM_append_ok sofar direct
    · rw [← disk.written_eq reachable.ready]

/-- A fetch and a commit fail, and then the consumer refuses the first block. After a reset the third one
is confirmed. -/
def refusedTurns (consumer : Consumer Unit) : List (Turn Unit) :=
  let works : Surroundings Unit :=
    { source := fun h => .ok [Fixture.tx h.slot 0 [] [Fixture.output "alice" 5], Fixture.tx h.slot 1 [] []]
      consumer
      store := Database.withFaults .never }
  let offline : Surroundings Unit := { works with source := fun _ => .error "offline" }
  let full : Surroundings Unit :=
    { works with store := Database.withFaults { commit := fun _ => some (.io "disk full") } }
  let refused : Surroundings Unit :=
    { works with consumer := fun block txs k db => (.error "refused", (consumer block txs k db).2) }
  let forward (slot : UInt64) : ChainEvent := .rollForward (Fixture.header slot)
  [.event ⟨works, forward 1⟩, .event ⟨offline, forward 2⟩, .event ⟨full, forward 2⟩,
    .event ⟨refused, forward 2⟩, .reset id, .event ⟨works, forward 3⟩,
    .event ⟨works, .rollBackward (Fixture.point 3)⟩, .event ⟨works, forward 4⟩]

theorem refusedTurns_positioned (consumer : Consumer Unit) :
    ∀ turn ∈ refusedTurns consumer, turn.Positioned := by
  have works : ∀ (h : BlockHeader) txs, (Except.ok [Fixture.tx h.slot 0 [] [Fixture.output "alice" 5],
      Fixture.tx h.slot 1 [] []] : Except String (List Tx)) = .ok txs →
      (txs.map (·.indexInBlock)).Nodup := by
    rintro h _ ⟨⟩
    simp [Fixture.tx]
  simp only [refusedTurns, List.forall_mem_cons, Turn.Positioned]
  exact ⟨works, nofun, works, works, trivial, works, works, works, nofun⟩

theorem refusedTurns_bringsNothing : ∀ turn ∈ refusedTurns fun _ txs k db => (.ok (), k, (db.markProcessed txs).2),
    turn.BringsNothing := by
  have marks (answer : Except String Unit) (faults : Faults) :
      Turn.BringsNothing (.event ⟨⟨fun _ => .ok [], fun _ txs (k : Unit) db =>
        (answer, k, (db.markProcessed txs).2), Database.withFaults faults⟩, .rollBackward .origin⟩) :=
    ⟨fun _ txs _ db stored => Database.madeOf_markProcessed stored, fun db => .refl db.contents⟩
  simp only [refusedTurns, List.forall_mem_cons]
  exact ⟨marks _ _, marks _ _, marks _ _, marks _ _, fun db => .refl db.contents, marks _ _, marks _ _,
    marks _ _, nofun⟩

/-- The consumer marks what it is told. It is told of the first and of the third block, each time with both
transactions, and finds them in the store. All in the second store comes from these two commits. -/
theorem notices_refusedTurns :
    let s : Indexer :=
      { config := { confirmationDepth := 1 }, database := .new .memory, window := .empty 1 }
    let start := Session.since s ((), ([] : List Notice))
    let turns := refusedTurns fun _ txs k db => (.ok (), k, (db.markProcessed txs).2)
    let t := start.turns (turns.map Turn.noting)
    let commits := start.commits (turns.map Turn.noting)
    t.notices.map (fun n => (n.block.slot, n.txs.length)) = [(1, 2), (3, 2)] ∧
      t.notices = commits.map Commit.notice ∧ (∀ n ∈ t.notices, n.Recorded) ∧
      ∃ first second, commits = [first, second] ∧
        Contents.empty.MadeOf [first.confirmation, second.confirmation] second.store.contents := by
  intro s start turns t commits
  have reachable : s.Reachable { confirmationDepth := 1 } :=
    .new (show Indexer.new _ (.new .memory) = .ok s from rfl)
  obtain ⟨told, -, recorded, found⟩ :=
    notices_eq_commits reachable () turns (refusedTurns_positioned _)
  have all : t.notices = commits.map Commit.notice := told turns List.prefix_rfl
  refine ⟨by decide +kernel, all, fun n hn => ?_, ?_⟩
  · rw [all] at hn
    obtain ⟨commit, hcommit, rfl⟩ := List.mem_map.1 hn
    exact recorded commit hcommit
  · let front := turns.take 7
    let last : Turn Unit := turns.getLast (by decide +kernel)
    have split : front ++ [last] = turns := rfl
    obtain ⟨second, committed⟩ : ∃ c, (start.turns (front.map Turn.noting)).commit? last.noting = some c :=
      Option.isSome_iff_exists.1 (by decide +kernel)
    obtain ⟨first, one⟩ : ∃ c, start.commits (front.map Turn.noting) = [c] :=
      List.length_eq_one_iff.1 (by decide +kernel)
    obtain ⟨made, -, same⟩ := found front last second (split ▸ List.prefix_rfl) committed
    have disk : start.ReachesDisk (turns.map Turn.noting) := by decide +kernel
    have ready : (start.turns (front.map Turn.noting)).indexer.Ready _ :=
      Session.ready_turns (t := start) reachable.ready _
    have written : start.written (turns.map Turn.noting) =
        start.written (front.map Turn.noting) ++ [second] := by
      rw [← split, List.map_append]
      exact Session.written_append_singleton (Session.written?_of_commit? ready committed)
    have both : start.written (front.map Turn.noting) ++ [second] = [first, second] := by
      rw [same (by decide +kernel), one]
      rfl
    refine ⟨first, second, ?_, ?_⟩
    · rw [← both, ← written]
      exact (disk.written_eq (t := start) reachable.ready).symm
    · have comes := made refusedTurns_bringsNothing
      rw [both] at comes
      exact comes

/-- The consumer is told of the blocks of the first and the second slot. When it is told of the second one, it finds
the block of the fifth slot in the store, of which it is never told. -/
theorem later_block_noticed :
    let config : IndexerConfig := { confirmationDepth := 1 }
    let s : Indexer := { config, database := .new (.durable true), window := .empty 1 }
    let start := Session.since s ((), ([] : List Notice))
    let t := start.turns ((unsyncedTurns fun h => [Fixture.tx h.slot 0 [] []]).map Turn.noting)
    let fifth := ConfirmedBlock.ofHeader (Fixture.header 5) [Fixture.txHash 5 0]
    config.fault? = none ∧
      t.notices.map (fun n => (n.block.slot, n.store.contents.lookup .confirmedBlocks (Key.ofSlot 5))) =
        [(1, none), (2, some (Cbor.Record.encode fifth))] := by
  decide +kernel

end ChainIndex
