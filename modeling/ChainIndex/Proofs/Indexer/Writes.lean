import ChainIndex.Proofs.Indexer.Commits

/-!
# What turns write

* `Session.written?`: the commit that a turn makes, or would make if the disk were reached. `Session.written` are
  those of turns in order.
* `Session.Turned`: what is written is committed, unless the wait for the disk was in vain. Then the
  consumer is not told, but the store holds it (`Session.turn_turned`).
* `Session.ReachesDisk`: no wait of the turns is in vain. Then all that is written is committed
  (`Session.ReachesDisk.written_eq`).
* `Turn.Quiet`, `Turn.Alone`: nobody but the indexer writes to the store, so a turn leaves it or what it writes
  (`Session.quiet_turn`), and what everything that is written keeps is kept by turns (`Session.quiet_turns`).
-/

namespace ChainIndex

variable {κ : Type}

namespace Database

/-- Looking up an output has nothing to do with the wait for the disk. -/
theorem txOutput_synced (db : Database) : db.synced.txOutput = db.txOutput := by
  funext ref
  obtain ⟨engine, isPoisoned⟩ := db
  cases isPoisoned with
  | true => rfl
  | false =>
    have stored : View.get (ε := StoreError) .utxos ref.key engine.synced = View.get .utxos ref.key engine :=
      rfl
    unfold txOutput view
    simp only [synced, Bool.false_eq_true, if_false, Bind.bind, ReaderT.bind, stored]
    congr 1
    funext value?
    rcases value? with _ | _ | ⟨byte, bytes⟩ <;> rfl

end Database

namespace Indexer

/-- The indexer over a store whose commits reach the disk. -/
def synced (s : Indexer) : Indexer := { s with database := s.database.synced }

/-- A confirmation fails and has written nothing, or it has written the batch of its block. Then it succeeds,
unless it waited for the disk in vain. -/
theorem confirm_synced (s : Indexer) (header : BlockHeader) (txs : List Tx) :
    (∃ e e' writer, (s.synced.confirm header txs).1 = .error e ∧
      s.confirm header txs = (.error e', { s with writer })) ∨
    ∃ c t, s.synced.confirm header txs = (.ok c, t) ∧
      (s.confirm header txs =
          (.ok c, { t with database := s.database.withContents t.database.contents }) ∨
        ∃ e, s.database.engine.vainWait? = some e ∧ s.confirm header txs =
          (.error (.store e),
            { s with writer := .empty, database := s.database.withContents t.database.contents })) := by
  unfold confirm
  rw [show s.synced.database.txOutput = s.database.txOutput from s.database.txOutput_synced]
  cases resolveInputs s.database.txOutput txs with
  | error e => exact .inl ⟨_, _, s.writer, rfl, rfl⟩
  | ok resolved =>
    dsimp only [synced]
    generalize List.foldl BatchWriter.push s.writer _ = w
    have ends := w.execute_ends s.database
    have writer := w.execute_writer s.database
    have writer' := w.execute_writer s.database.synced
    rcases hs : w.execute s.database.synced with ⟨answer, _, after⟩
    rcases hr : w.execute s.database with ⟨answer', _, after'⟩
    rw [hs, hr] at ends
    rw [hr] at writer
    rw [hs] at writer'
    subst writer writer'
    generalize hleft : Database.left? (answer, after) = left at ends
    generalize hreal : (answer', after') = real at ends
    cases ends with
    | refused e =>
      cases hreal
      cases answer with
      | ok => cases hleft
      | error e' => exact .inl ⟨_, _, .empty, rfl, rfl⟩
    | done u c =>
      cases hreal
      obtain ⟨rfl, rfl⟩ := Database.left?_eq_some.1 hleft
      exact .inr ⟨_, _, rfl, .inl rfl⟩
    | vain u c e waits =>
      cases hreal
      obtain ⟨rfl, rfl⟩ := Database.left?_eq_some.1 hleft
      exact .inr ⟨_, _, rfl, .inr ⟨e, waits, rfl⟩⟩

/-- The commit that an announced header brings about, or would bring about if the disk were reached; with the
store that it leaves. -/
def written? (s : Indexer) (source : BlockSource) : Option Commit :=
  (s.synced.commit? source).map fun commit =>
    { commit with store := s.database.withContents commit.store.contents }

/-- A commit is written. -/
theorem written?_of_commit? {s : Indexer} {source : BlockSource} {commit : Commit}
    (h : s.commit? source = some commit) : s.written? source = some commit := by
  obtain ⟨oldest, rest, txs, t, full, pending, fetched, confirm, store⟩ := commit?_eq_some.1 h
  obtain ⟨_, _, _, -, failed⟩ | ⟨c, t', synced, real⟩ := s.confirm_synced oldest txs
  · rw [confirm] at failed
    cases failed
  · obtain real | ⟨_, -, failed⟩ := real
    · rw [confirm] at real
      cases real
      obtain ⟨c, after⟩ := commit
      subst store
      refine Option.map_eq_some_iff.2 ⟨⟨c, t'.database⟩, ?_, rfl⟩
      exact commit?_eq_some.2 ⟨oldest, rest, txs, t', full, pending, fetched, synced, rfl⟩
    · rw [confirm] at failed
      cases failed

/-- If nothing is written, an announced header leaves the store. -/
theorem rollForward_of_unwritten {s : Indexer} {source : BlockSource} (h : s.written? source = none)
    (consumer : Consumer κ) (header : BlockHeader) (k : κ) :
    (s.rollForward source consumer header k).2.1.database = s.database := by
  unfold rollForward
  split
  · rename_i room
    obtain ⟨window, hpush, -, -⟩ := push_of_room header (by simpa using room)
    rw [hpush]
  · rename_i hfull
    have full : s.window.isFull = true := by simpa using hfull
    split
    · rfl
    · rename_i oldest hpeek
      obtain ⟨rest, pending⟩ : ∃ rest, s.pending = oldest :: rest := List.head?_eq_some_iff.1 hpeek
      split
      · rfl
      · rename_i txs fetched
        obtain ⟨_, _, _, -, failed⟩ | ⟨c, t, synced, -⟩ := s.confirm_synced oldest txs
        · rw [failed]
        · have committed : s.synced.commit? source = some ⟨c, t.database⟩ :=
            commit?_eq_some.2 ⟨oldest, rest, txs, t, full, pending, fetched, synced, rfl⟩
          rw [written?, committed] at h
          cases h

/-- What is written is committed, unless it waited for the disk in vain. -/
theorem rollForward_of_written {s : Indexer} {source : BlockSource} {commit : Commit}
    (h : s.written? source = some commit) : s.commit? source = some commit ∨
      ∃ e, s.database.engine.vainWait? = some e ∧ s.commit? source = none ∧
        ∀ (consumer : Consumer κ) (header : BlockHeader) (k : κ),
          (s.rollForward source consumer header k).2.1.database = commit.store := by
  obtain ⟨commit', h', rfl⟩ := Option.map_eq_some_iff.1 h
  obtain ⟨oldest, rest, txs, t, full, pending, fetched, confirm, store⟩ := commit?_eq_some.1 h'
  obtain ⟨_, _, _, failed, -⟩ | ⟨c, t', synced, real⟩ := s.confirm_synced oldest txs
  · rw [confirm] at failed
    cases failed
  · rw [confirm] at synced
    cases synced
    rw [store] at real
    obtain real | ⟨e, waits, real⟩ := real
    · exact .inl (commit?_eq_some.2 ⟨oldest, rest, txs, _, full, pending, fetched, real, rfl⟩)
    · have hpeek : s.window.peek? = some oldest := List.head?_eq_some_iff.2 ⟨rest, pending⟩
      have full' : s.window.isFull = true := full
      refine .inr ⟨e, waits, ?_, fun consumer header k => ?_⟩
      · rw [commit?, if_pos full']
        simp only [hpeek, fetched, real]
      · rw [rollForward, if_neg (by simp [full'])]
        simp only [hpeek, fetched, real]

end Indexer

namespace Session

variable {config : IndexerConfig} {t : Session κ} {turn : Turn κ} {commit : Commit}

/-- The commit that a turn makes, or would make if the disk were reached; with the store that it leaves. -/
def written? (t : Session κ) : Turn κ → Option Commit
  | .event ⟨⟨source, _, store⟩, .rollForward _⟩ =>
    Indexer.written? { t.indexer with database := store t.indexer.database } source
  | _ => none

/-- What turns have written, in order. -/
def written (t : Session κ) : List (Turn κ) → List Commit
  | [] => []
  | turn :: turns => (t.written? turn).toList ++ (t.turn turn).written turns

/-- What a turn does to the store, by what it writes and what it commits. -/
inductive Turned (t : Session κ) (turn : Turn κ) : Option Commit → Option Commit → Prop
  /-- Nothing is written. -/
  | idle (left : (t.turn turn).indexer.database = turn.store t.indexer.database) : Turned t turn none none
  /-- A commit. The store is then left to the consumer. -/
  | committed (commit : Commit) : Turned t turn (some commit) (some commit)
  /-- A commit that waits for the disk in vain. The consumer is not told. -/
  | vain (commit : Commit) (e : StoreError)
      (waits : (turn.store t.indexer.database).engine.vainWait? = some e)
      (left : (t.turn turn).indexer.database = commit.store) : Turned t turn (some commit) none

/-- Every turn does one of the three. -/
theorem turn_turned (ready : t.indexer.Ready config) (turn : Turn κ) :
    Turned t turn (t.written? turn) (t.commit? turn) := by
  cases turn with
  | event c =>
    obtain ⟨⟨source, consumer, store⟩, event⟩ := c
    cases event with
    | rollForward header =>
      simp only [written?, commit?]
      generalize hs : ({ t.indexer with database := store t.indexer.database } : Indexer) = s
      cases hw : s.written? source with
      | none =>
        have uncommitted : s.commit? source = none := by
          cases hc : s.commit? source with
          | none => rfl
          | some commit => rw [Indexer.written?_of_commit? hc] at hw; cases hw
        rw [uncommitted]
        refine .idle ?_
        subst hs
        exact Indexer.rollForward_of_unwritten hw consumer.logged header (t.state, t.handed)
      | some commit =>
        obtain committed | ⟨e, waits, uncommitted, left⟩ := Indexer.rollForward_of_written (κ := κ × _) hw
        · rw [committed]
          exact .committed commit
        · rw [uncommitted]
          subst hs
          exact .vain commit e waits (left consumer.logged header (t.state, t.handed))
    | rollBackward point => exact .idle (Indexer.rollBackward_database _ point)
  | reset store => exact .idle (turn_reset_database t store)
  | restart store => exact .idle (congrArg (·.indexer.database) (turn_restart_eq ready store))

/-- What is written is the batch of the oldest header that waits, over the store that the turn finds. -/
theorem of_written? (h : t.written? turn = some commit) :
    ∃ (c : Call κ) (oldest : BlockHeader) (rest : List BlockHeader) (txs : List Tx) (s : Indexer),
      turn = .event c ∧ t.pending = oldest :: rest ∧ c.source oldest = .ok txs ∧
      Indexer.confirm { t.indexer with database := (turn.store t.indexer.database).synced } oldest txs =
        (.ok commit.confirmation, s) ∧
      commit.store = (turn.store t.indexer.database).withContents s.database.contents := by
  cases turn with
  | event c =>
    obtain ⟨⟨source, consumer, store⟩, event⟩ := c
    cases event with
    | rollForward header =>
      obtain ⟨synced, committed, rfl⟩ := Option.map_eq_some_iff.1 h
      obtain ⟨oldest, rest, txs, s, -, pending, fetched, confirm, database⟩ :=
        Indexer.commit?_eq_some.1 committed
      refine ⟨_, oldest, rest, txs, s, rfl, pending, fetched, confirm, ?_⟩
      rw [database]
      rfl
    | rollBackward point => cases h
  | reset store => cases h
  | restart store => cases h

/-- The changes of what is written are made one after the other. -/
theorem written?_direct (ready : t.indexer.Ready config) (h : t.written? turn = some commit) :
    ((commit.confirmation.ops config.softDelete).forM BatchOp.direct : Direct StoreError Unit)
      (turn.store t.indexer.database).contents = .ok ((), commit.store.contents) := by
  obtain ⟨c, oldest, rest, txs, s, -, -, -, confirm, store⟩ := of_written? h
  obtain ⟨resolved, after, -, -, hexecute, rfl⟩ := Indexer.confirm_ok confirm
  rw [ready.config_eq, ready.writer_eq] at hexecute
  have direct := (BatchWriter.execute_ok hexecute).1
  rw [BatchWriter.ops_of_pushed] at direct
  rw [store]
  exact direct

theorem written_append (t : Session κ) (front rest : List (Turn κ)) :
    t.written (front ++ rest) = t.written front ++ (t.turns front).written rest := by
  induction front generalizing t with
  | nil => rfl
  | cons turn front ih =>
    simp only [List.cons_append, written, ih, List.append_assoc]
    rfl

theorem written_append_singleton {front : List (Turn κ)}
    (h : (t.turns front).written? turn = some commit) :
    t.written (front ++ [turn]) = t.written front ++ [commit] := by
  simp [written_append, written, h]

/-- What is committed is written. -/
theorem written?_of_commit? (ready : t.indexer.Ready config) (h : t.commit? turn = some commit) :
    t.written? turn = some commit := by
  have turned := turn_turned ready turn
  rw [h] at turned
  generalize t.written? turn = written at turned
  cases turned
  rfl

theorem commits_sublist_written (ready : t.indexer.Ready config) (turns : List (Turn κ)) :
    (t.commits turns).Sublist (t.written turns) := by
  induction turns generalizing t with
  | nil => exact .slnil
  | cons turn turns ih =>
    refine List.Sublist.append ?_ (ih (ready_turn ready turn))
    cases h : t.commit? turn with
    | none => exact List.nil_sublist _
    | some commit =>
      rw [written?_of_commit? ready h]

/-- No turn makes a commit that waits for the disk in vain. -/
def ReachesDisk (t : Session κ) : List (Turn κ) → Prop
  | [] => True
  | turn :: turns =>
    (turn.store t.indexer.database).engine.ReachesDisk ∧ (t.turn turn).ReachesDisk turns

instance decidableReachesDisk (t : Session κ) : (turns : List (Turn κ)) → Decidable (t.ReachesDisk turns)
  | [] => .isTrue trivial
  | turn :: turns =>
    have := decidableReachesDisk (t.turn turn) turns
    inferInstanceAs (Decidable (_ ∧ _))

/-- Where the disk is reached, what is written is committed. -/
theorem written?_eq_commit? (ready : t.indexer.Ready config)
    (disk : (turn.store t.indexer.database).engine.ReachesDisk) : t.written? turn = t.commit? turn := by
  have turned := turn_turned ready turn
  generalize t.written? turn = written at turned ⊢
  generalize t.commit? turn = committed at turned ⊢
  cases turned with
  | idle | committed => rfl
  | vain commit e waits =>
    rw [Engine.vainWait?_eq_none.2 disk] at waits
    cases waits

theorem ReachesDisk.written_eq (ready : t.indexer.Ready config) {turns : List (Turn κ)}
    (disk : t.ReachesDisk turns) : t.written turns = t.commits turns := by
  induction turns generalizing t with
  | nil => rfl
  | cons turn turns ih =>
    rw [written, commits, written?_eq_commit? ready disk.1, ih (ready_turn ready turn) disk.2]

/-- If no commit waits for the disk in vain, the headers of what a new session has written are those that are
confirmed. -/
theorem ReachesDisk.confirmed_eq (ready : t.indexer.Ready config) (nothing : t.confirmed = [])
    {turns : List (Turn κ)} (disk : t.ReachesDisk turns) :
    (t.written turns).map (·.confirmation.block.header) = (t.turns turns).confirmed := by
  rw [disk.written_eq ready, confirmed_turns ready, nothing, List.nil_append]

end Session

/-! ## A store that nobody else writes to -/

/-- Nobody but the indexer writes to the store. Any of their calls may fail. -/
def Turn.Quiet : Turn κ → Prop
  | event c => c.consumer.ReadsOnly ∧ ∀ db, (c.store db).contents = db.contents
  | reset store | restart store => ∀ db, (store db).contents = db.contents

theorem Turn.Quiet.store {turn : Turn κ} (h : turn.Quiet) (db : Database) :
    (turn.store db).contents = db.contents := by
  cases turn with
  | event c => exact h.2 db
  | reset store | restart store => exact h db

/-- Nobody but the indexer writes to the store, and the transactions of a block are those of its header. -/
def Turn.Alone (txsOf : BlockHeader → List Tx) (turn : Turn κ) : Prop := turn.Agrees txsOf ∧ turn.Quiet

theorem Turn.Plain.alone {txsOf : BlockHeader → List Tx} {turn : Turn κ} (h : turn.Plain txsOf) :
    turn.Alone txsOf := by
  cases turn with
  | event c => exact ⟨h.1, h.2.1, fun db => (h.2.2 db).1⟩
  | reset store | restart store => exact ⟨trivial, fun db => (h db).1⟩

namespace Session

variable {config : IndexerConfig} {t : Session κ} {turn : Turn κ}

/-- A quiet turn leaves the contents, or what is written over them. -/
theorem quiet_turn (ready : t.indexer.Ready config) (quiet : turn.Quiet) :
    match t.written? turn with
    | none => (t.turn turn).contents = t.contents
    | some commit => (t.turn turn).contents = commit.store.contents := by
  have turned := turn_turned ready turn
  generalize t.written? turn = written at turned ⊢
  generalize hc : t.commit? turn = committed at turned
  cases turned with
  | idle left => exact (congrArg Database.contents left).trans (quiet.store _)
  | committed commit =>
    obtain ⟨c, rfl, -, -, database⟩ := turn_of_some hc
    rw [quiet.1] at database
    exact congrArg Database.contents database
  | vain commit e waits left => exact congrArg Database.contents left

/-- What is said of what was written so far and of the contents, and is kept by everything that a turn writes, is
kept by quiet turns. -/
theorem quiet_turns (ready : t.indexer.Ready config) {turns : List (Turn κ)}
    (quiet : ∀ turn ∈ turns, turn.Quiet) {P : List Commit → Contents → Prop} (start : P [] t.contents)
    (kept : ∀ (u : Session κ) (turn : Turn κ) (commit : Commit) (before : List Commit),
      u.indexer.Ready config → turn ∈ turns → u.written? turn = some commit → P before u.contents →
        P (before ++ [commit]) commit.store.contents) :
    P (t.written turns) (t.turns turns).contents := by
  induction turns generalizing t P with
  | nil => exact start
  | cons turn turns ih =>
    obtain ⟨here, others⟩ := List.forall_mem_cons.1 quiet
    have step := quiet_turn ready here
    rw [written]
    cases hw : t.written? turn with
    | none =>
      rw [hw] at step
      refine ih (ready_turn ready turn) others (step ▸ start) fun u turn' commit before ready mem => ?_
      exact kept u turn' commit before ready (List.mem_cons_of_mem _ mem)
    | some first =>
      rw [hw] at step
      have written : P [first] first.store.contents :=
        kept t turn first [] ready List.mem_cons_self hw start
      -- From here on the first commit stands before all others.
      refine ih (P := fun later c => P (first :: later) c) (ready_turn ready turn) others (step ▸ written)
        fun u turn' commit before ready mem => ?_
      exact kept u turn' commit (first :: before) ready (List.mem_cons_of_mem _ mem)

end Session

/-! ## A run -/

/-- The block of the first slot is confirmed. Then that of the fifth one is written in vain; the chain goes
back, and a fork with the second slot is confirmed instead. -/
def unsyncedTurns (txsOf : BlockHeader → List Tx) : List (Turn Unit) :=
  let works : Surroundings Unit :=
    ⟨fun header => .ok (txsOf header), fun _ _ k db => (.ok (), k, db), Database.withFaults .never⟩
  let unsynced : Surroundings Unit :=
    { works with store := Database.withFaults { sync := some (.backend "sync failed") } }
  let forward (slot : UInt64) : ChainEvent := .rollForward (Fixture.header slot)
  [.reset id, .event ⟨works, forward 1⟩, .event ⟨works, forward 5⟩, .event ⟨unsynced, forward 6⟩,
    .event ⟨works, .rollBackward (Fixture.point 1)⟩, .event ⟨works, forward 2⟩,
    .event ⟨works, forward 3⟩]

theorem unsyncedTurns_alone (txsOf : BlockHeader → List Tx) :
    ∀ turn ∈ unsyncedTurns txsOf, turn.Alone txsOf := by
  have alone (faults : Faults) (event : ChainEvent) : (Turn.event ⟨⟨fun header => .ok (txsOf header),
      fun _ _ (k : Unit) db => (.ok (), k, db), Database.withFaults faults⟩, event⟩).Alone txsOf :=
    ⟨fun _ _ h => (Except.ok.inj h).symm, fun _ _ _ _ => rfl, fun _ => rfl⟩
  simp only [unsyncedTurns, List.forall_mem_cons]
  exact ⟨⟨trivial, fun _ => rfl⟩, alone .., alone .., alone .., alone .., alone .., alone .., nofun⟩

end ChainIndex
