import ChainIndex.Fixture.Basic
import ChainIndex.Proofs.Indexer.Session

/-!
# Announcements that fail and are repeated

* `Attempt`: what one try to announce a header meets: a source, a consumer, and calls of the store that
  fail. `Session.attempt` makes the try.
* `Session.FailedTries`: tries that fail one after the other before the consumer is called.
* `rollForward_failures_leave_no_trace`: over a store that commits atomically such tries leave the
  session as it was, so that the next one does what it would have done without them. An error of the
  consumer leaves what a success leaves.
-/

namespace ChainIndex

variable {κ : Type}

/-- The database whose calls meet other faults. -/
def Database.withFaults (faults : Faults) (db : Database) : Database :=
  { db with engine := { db.engine with faults } }

@[simp] theorem Database.contents_withFaults (faults : Faults) (db : Database) :
    (db.withFaults faults).contents = db.contents := rfl

/-- A consumer that does the same and never refuses. -/
def Consumer.accepting (consumer : Consumer κ) : Consumer κ :=
  fun block txs k db => (.ok (), (consumer block txs k db).2)

theorem Consumer.logged_accepting (consumer : Consumer κ) :
    consumer.accepting.logged = consumer.logged.accepting := rfl

/-- The consumer is called when all else is done, so with one that does not refuse an announcement that
only the consumer refused is accepted and leaves the same. -/
theorem Indexer.rollForward_accepting {s : Indexer} {source : BlockSource} {consumer : Consumer κ}
    {header : BlockHeader} {k : κ} {e : IndexerError}
    (failed : (s.rollForward source consumer header k).1 = .error e) (kind : e.kind = .consumer) :
    s.rollForward source consumer.accepting header k =
      (.ok (), (s.rollForward source consumer header k).2) := by
  unfold rollForward at failed ⊢
  split
  · rename_i room
    obtain ⟨window, hpush, -, -⟩ := push_of_room header (by simpa using room)
    rw [hpush]
  · rename_i full
    rw [if_neg full] at failed
    -- Every way to fail before the consumer has an error of another kind.
    split at failed
    · cases failed; cases kind
    · split at failed
      · cases failed; cases kind
      · split at failed
        · rename_i hconfirm
          obtain ⟨cause, writer, database, rfl, -, -, -⟩ := confirm_error hconfirm
          cases failed
          exact absurd kind cause.kind_ne_consumer
        · split at failed
          · rename_i hpush
            unfold push at hpush
            split at hpush <;> cases hpush
            cases failed; cases kind
          · simp only [*, Consumer.accepting]
            split <;> rfl

/-- What one try to announce a header meets. -/
structure Attempt (κ : Type) where
  source : BlockSource
  consumer : Consumer κ
  faults : Faults := .never

/-- The try whose consumer does not refuse. -/
def Attempt.accepting (a : Attempt κ) : Attempt κ := { a with consumer := a.consumer.accepting }

namespace Session

/-- The session over a store whose calls meet other faults. -/
def withFaults (t : Session κ) (faults : Faults) : Session κ :=
  { t with indexer := { t.indexer with database := t.indexer.database.withFaults faults } }

/-- Tries to announce a header. -/
def attempt (t : Session κ) (header : BlockHeader) (a : Attempt κ) : Answer × Session κ :=
  t.call ⟨⟨a.source, a.consumer, Database.withFaults a.faults⟩, .rollForward header⟩

/-- What a try comes to does not depend on the faults before it. -/
theorem attempt_withFaults (t : Session κ) (faults : Faults) (header : BlockHeader)
    (a : Attempt κ) : (t.withFaults faults).attempt header a = t.attempt header a := rfl

/-- A store that commits atomically under the faults of a try. -/
def CommitsAtomically (t : Session κ) (a : Attempt κ) : Prop :=
  (t.withFaults a.faults).indexer.database.engine.CommitsAtomically

theorem attempt_forwarded (t : Session κ) (header : BlockHeader) (a : Attempt κ) :
    ∃ r, Indexer.Forwarded (t.withFaults a.faults).indexer a.source a.consumer.logged header
        (t.state, t.handed) r ∧
      t.attempt header a =
        (r.1, { t with indexer := r.2.1, state := r.2.2.1, handed := r.2.2.2 }) :=
  ⟨_, Indexer.rollForward_forwarded _ _ _ _ _, rfl⟩

/-- A try that fails before the consumer leaves the session. -/
theorem attempt_failed {config : IndexerConfig} {t : Session κ} (ready : t.indexer.Ready config)
    {header : BlockHeader} {a : Attempt κ} {e : IndexerError} (atomic : t.CommitsAtomically a)
    (failed : (t.attempt header a).1 = .error e) (notConsumer : e.kind ≠ .consumer) :
    (t.attempt header a).2 = t.withFaults a.faults := by
  obtain ⟨r, hf, hr⟩ := t.attempt_forwarded header a
  rw [hr] at failed ⊢
  cases hf with
  | waits => cases failed
  | failed e' writer database full notConsumer' idle unchanged =>
    have hw : writer = t.indexer.writer := by
      rcases idle with hw | hw
      · exact hw
      · rw [hw, ready.writer_eq]
    have hd := unchanged atomic
    subst hw hd
    rfl
  | confirmed oldest rest txs c s window full pending fetched confirm entries capacity =>
    have heff := isEffective_mapError_consumer c.block.point
      (a.consumer.logged c.block c.txs (t.state, t.handed) s.database).1
    simp only at failed
    rw [failed] at heff
    simp [Answer.isEffective, notConsumer] at heff

/-- No change waits after a try, whatever came of it. -/
theorem attempt_writer {config : IndexerConfig} {t : Session κ} (ready : t.indexer.Ready config)
    (header : BlockHeader) (a : Attempt κ) : (t.attempt header a).2.indexer.writer = .empty := by
  obtain ⟨r, hf, hr⟩ := t.attempt_forwarded header a
  rw [hr]
  exact ((ready.store _).forwarded hf).writer_eq

/-- An error of the consumer leaves what a success leaves. -/
theorem attempt_consumer {t : Session κ} {header : BlockHeader} {a : Attempt κ}
    {e : IndexerError} (failed : (t.attempt header a).1 = .error e) (consumer : e.kind = .consumer) :
    t.attempt header a.accepting = (.ok (), (t.attempt header a).2) := by
  have h := Indexer.rollForward_accepting failed consumer
  rw [← Consumer.logged_accepting] at h
  unfold attempt call
  simp only [Attempt.accepting, h]

/-- Tries that fail one after the other, each before the consumer is called and over a store that commits
atomically. -/
inductive FailedTries (header : BlockHeader) : Session κ → Session κ → Prop
  | none {t : Session κ} : FailedTries header t t
  | more {t u : Session κ} (h : FailedTries header t u) (a : Attempt κ) (e : IndexerError)
      (atomic : u.CommitsAtomically a) (failed : (u.attempt header a).1 = .error e)
      (notConsumer : e.kind ≠ .consumer) : FailedTries header t (u.attempt header a).2

/-- Tries that fail change nothing but the faults of the store. -/
theorem FailedTries.eq_withFaults {config : IndexerConfig} {header : BlockHeader}
    {t u : Session κ} (h : FailedTries header t u) (ready : t.indexer.Ready config) :
    ∃ faults, u = t.withFaults faults := by
  induction h with
  | none => exact ⟨t.indexer.database.engine.faults, rfl⟩
  | more h a e atomic failed notConsumer ih =>
    obtain ⟨faults, rfl⟩ := ih
    exact ⟨a.faults, attempt_failed (ready.store _) atomic failed notConsumer⟩

end Session

/-- A try to announce a header that fails before the consumer, over a store that commits atomically,
leaves the window, the latest point, the contents of the store, and what the consumer was handed; and no
change waits for a later batch. After any number of such tries the next one is answered what it would
have been without them, and leaves the same. A try whose consumer fails leaves what it would have left
with a consumer that does the same and does not fail. -/
theorem rollForward_failures_leave_no_trace {config : IndexerConfig} {t : Session κ}
    (reachable : t.indexer.Reachable config) (header : BlockHeader) :
    (∀ (a : Attempt κ) (e : IndexerError), t.CommitsAtomically a →
      (t.attempt header a).1 = .error e → e.kind ≠ .consumer →
      (t.attempt header a).2 = t.withFaults a.faults) ∧
    (∀ a : Attempt κ, (t.attempt header a).2.indexer.writer = .empty) ∧
    (∀ u, Session.FailedTries header t u →
      ∀ a : Attempt κ, u.attempt header a = t.attempt header a) ∧
    ∀ (a : Attempt κ) (e : IndexerError), (t.attempt header a).1 = .error e → e.kind = .consumer →
      t.attempt header a.accepting = (.ok (), (t.attempt header a).2) := by
  refine ⟨fun a e atomic failed notConsumer => ?_, fun a => ?_, fun u tries a => ?_, ?_⟩
  · exact Session.attempt_failed reachable.ready atomic failed notConsumer
  · exact Session.attempt_writer reachable.ready header a
  · obtain ⟨faults, rfl⟩ := tries.eq_withFaults reachable.ready
    exact t.attempt_withFaults faults header a
  · exact fun a e failed consumer => Session.attempt_consumer failed consumer

/-- A fetch fails, then a commit, and the third try confirms the first block. -/
theorem rollForward_third_try :
    let s : Indexer :=
      { config := { confirmationDepth := 1 }, database := .new .memory, window := .empty 1 }
    let accepts : Consumer Unit := fun _ _ k db => (.ok (), k, db)
    let offline : Attempt Unit := { source := fun _ => .error "offline", consumer := accepts }
    let stuck : Attempt Unit :=
      ⟨fun _ => .ok [], accepts, { commit := fun _ => some (.io "disk full") }⟩
    let works : Attempt Unit := { source := fun _ => .ok [], consumer := accepts }
    let t := (Session.attempt ⟨s, (), [], []⟩ (Fixture.header 1) works).2
    let third := ((t.attempt (Fixture.header 2) offline).2.attempt (Fixture.header 2) stuck).2.attempt
      (Fixture.header 2) works
    third = t.attempt (Fixture.header 2) works ∧ third.2.confirmed = [Fixture.header 1] := by
  intro s accepts offline stuck works t third
  have reachable : t.indexer.Reachable { confirmationDepth := 1 } :=
    .rollForward (.store (.new (show Indexer.new _ (.new .memory) = .ok s from rfl)) _) works.source
      accepts.logged (Fixture.header 1) ((), [])
  have tries : Session.FailedTries (Fixture.header 2) t
      ((t.attempt (Fixture.header 2) offline).2.attempt (Fixture.header 2) stuck).2 := by
    refine .more (.more .none offline _ ?_ rfl ?_) stuck _ ?_ rfl ?_
    · exact Engine.commitsAtomically_memory _ _
    · decide
    · exact Engine.commitsAtomically_memory _ _
    · decide
  exact ⟨(rollForward_failures_leave_no_trace reachable (Fixture.header 2)).2.2.1 _ tries works,
    by decide +kernel⟩

end ChainIndex
