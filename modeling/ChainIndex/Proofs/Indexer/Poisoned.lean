import ChainIndex.Fixture.Basic
import ChainIndex.Proofs.Indexer.Reachable
import ChainIndex.Proofs.Storage.Panic

/-!
# Indexers over a poisoned store

* `Indexer.Event`: what can be asked of an indexer. `Indexer.Event.NeedsStore`: the events that go to the store.
* `Indexer.Event.perform_of_poisoned`: over a poisoned store those fail with a fatal error and leave everything;
  `Indexer.Event.perform_of_not_needsStore`: the others do not depend on the store.
* `panic_locks_store`: so an update that is left by a panic is the last thing that the store and an indexer over
  it do, and it leaves nothing.
-/

namespace ChainIndex

/-! ## The calls of the store -/

namespace Database

theorem latestPoint?_of_poisoned {db : Database} (poisoned : db.isPoisoned = true) :
    db.latestPoint? = .error poisonedError := by
  rw [latestPoint?, view, if_pos poisoned]
  rfl

theorem txOutput_of_poisoned {db : Database} (poisoned : db.isPoisoned = true) (ref : OutputRef) :
    db.txOutput ref = .error poisonedError := by
  rw [txOutput, view, if_pos poisoned]
  rfl

end Database

theorem BatchWriter.execute_of_poisoned {db : Database} {w : BatchWriter} (poisoned : db.isPoisoned = true)
    (some : w.isEmpty = false) : w.execute db = (.error Database.poisonedError, .empty, db) := by
  simp only [execute, some, Database.update, poisoned]
  rfl

/-- A computation that, if it fails, fails with one error only. -/
def FailsOnlyWith {ε α : Type} (e : ε) (r : Except ε α) : Prop := ∀ e', r = .error e' → e' = e

namespace FailsOnlyWith

variable {ε α β : Type} {e : ε}

theorem ok (a : α) : FailsOnlyWith e (.ok a) := nofun

theorem error : FailsOnlyWith e (.error e : Except ε α) := fun _ h => (Except.error.inj h).symm

theorem bind {r : Except ε α} {f : α → Except ε β} (hr : FailsOnlyWith e r)
    (hf : ∀ a, FailsOnlyWith e (f a)) : FailsOnlyWith e (r >>= f) := by
  cases r with
  | ok a => exact hf a
  | error e' => cases hr e' rfl; exact error

theorem mapM {f : α → Except ε β} (hf : ∀ a, FailsOnlyWith e (f a)) (as : List α) :
    FailsOnlyWith e (as.mapM f) := by
  induction as with
  | nil => exact ok []
  | cons a rest ih =>
    rw [List.mapM_cons]
    exact (hf a).bind fun b => ih.bind fun bs => ok (b :: bs)

/-- With a look-up that fails with one error only, so does the resolution of inputs. -/
theorem resolveFrom {lookup : OutputRef → Except ε TxOutput} (hlookup : ∀ ref, FailsOnlyWith e (lookup ref))
    (produced : List ReferencedOutput) (txs : List Tx) :
    FailsOnlyWith e (resolveFrom lookup produced txs) := by
  have input (produced : List ReferencedOutput) (i : ReferencedOutput) :
      FailsOnlyWith e (resolveInput lookup produced i) := by
    unfold resolveInput
    split
    · split
      · exact ok _
      · exact (hlookup _).bind fun _ => ok _
    · exact ok _
  induction txs generalizing produced with
  | nil => exact ok []
  | cons tx rest ih => exact (mapM (input produced) tx.inputs).bind fun _ => (ih _).bind fun _ => ok _

end FailsOnlyWith

/-! ## Events -/

namespace Indexer

variable {κ : Type} {s : Indexer}

/-- Over a poisoned store a block is not confirmed, and nothing is left of the try. -/
theorem confirm_of_poisoned (poisoned : s.database.isPoisoned = true) (idle : s.writer = .empty)
    (header : BlockHeader) (txs : List Tx) :
    s.confirm header txs = (.error (.store Database.poisonedError), s) := by
  have lookup (ref : OutputRef) : FailsOnlyWith Database.poisonedError (s.database.txOutput ref) := by
    rw [Database.txOutput_of_poisoned poisoned]
    exact .error
  unfold confirm
  cases resolution : resolveInputs s.database.txOutput txs with
  | error e =>
    have refused := FailsOnlyWith.resolveFrom lookup [] txs e resolution
    simp only [refused]
  | ok resolved =>
    simp only
    rw [BatchWriter.execute_of_poisoned poisoned (by rw [idle]; rfl), ← idle]

/-- What can be asked of an indexer. -/
inductive Event (κ : Type) where
  | rollForward (source : BlockSource) (consumer : Consumer κ) (header : BlockHeader)
  | rollBackward (point : Point)
  | reset

namespace Event

/-- What an event comes to: its answer, with the point that a reset has picked, the indexer and the state of the
consumer. -/
def perform (s : Indexer) (k : κ) : Event κ → Except IndexerError (Option Point) × Indexer × κ
  | rollForward source consumer header =>
    let (answer, s, k) := s.rollForward source consumer header k
    (answer.map fun _ => none, s, k)
  | rollBackward point =>
    let (answer, s) := s.rollBackward point
    (answer.map fun _ => none, s, k)
  | reset =>
    let (answer, s) := s.reset
    (answer.map some, s, k)

/-- The events that go to the store: a header that finds the window full, when the block that is to be confirmed
could be fetched, and a reset. -/
def NeedsStore (s : Indexer) : Event κ → Prop
  | rollForward source _ _ =>
    s.window.isFull = true ∧ ∃ oldest ∈ s.window.peek?, ∃ txs, source oldest = .ok txs
  | rollBackward _ => False
  | reset => True

/-- The indexer and the state of the consumer after events. -/
def performAll (s : Indexer) (k : κ) (events : List (Event κ)) : Indexer × κ :=
  events.foldl (fun (s, k) e => (e.perform s k).2) (s, k)

/-- Over a poisoned store the events that go to it fail and leave everything. -/
theorem perform_of_poisoned (poisoned : s.database.isPoisoned = true) (idle : s.writer = .empty) (k : κ)
    {e : Event κ} (needs : e.NeedsStore s) :
    e.perform s k = (.error (.store Database.poisonedError), s, k) := by
  cases e with
  | rollForward source consumer header =>
    obtain ⟨full, oldest, peek, txs, fetched⟩ := needs
    simp only [perform, Indexer.rollForward, full, Option.mem_def.1 peek, fetched,
      confirm_of_poisoned poisoned idle]
    rfl
  | rollBackward point => exact needs.elim
  | reset =>
    simp only [perform, Indexer.reset, Database.latestPoint?_of_poisoned poisoned]
    rfl

/-- The other events are answered the same over every store, and change nothing but the window. -/
theorem perform_of_not_needsStore (k : κ) {e : Event κ} (free : ¬e.NeedsStore s) :
    ∃ answer window, ∀ database,
      e.perform { s with database } k = (answer, { s with database, window }, k) := by
  cases e with
  | rollForward source consumer header =>
    by_cases full : s.window.isFull = true
    · cases peek : s.window.peek? with
      | none =>
        refine ⟨.error (.windowOverflow s.window.capacity), s.window, fun _ => ?_⟩
        simp [perform, Indexer.rollForward, full, peek, Except.map]
      | some oldest =>
        cases fetched : source oldest with
        | error reason =>
          refine ⟨.error (.fetch oldest.point reason), s.window, fun _ => ?_⟩
          simp [perform, Indexer.rollForward, full, peek, fetched, Except.map]
        | ok txs => exact absurd ⟨full, oldest, peek, txs, fetched⟩ free
    · cases push : s.window.push? header with
      | none => exact absurd (Window.push?_eq_none_iff.1 push) full
      | some window =>
        refine ⟨.ok none, window, fun _ => ?_⟩
        simp [perform, Indexer.rollForward, full, Indexer.push, push, Except.map]
  | rollBackward point =>
    cases found : s.window.find? fun header => header.point.sameBlock point with
    | some index =>
      refine ⟨.ok none, s.window.truncate (index + 1), fun _ => ?_⟩
      simp [perform, Indexer.rollBackward, found, Except.map]
    | none =>
      by_cases same : point.sameBlock s.latestPoint
      · refine ⟨.ok none, s.window.clear, fun _ => ?_⟩
        simp [perform, Indexer.rollBackward, found, same, Except.map]
      · refine ⟨.error (.fatalRollback point s.latestPoint), s.window, fun _ => ?_⟩
        simp [perform, Indexer.rollBackward, found, same, Except.map]
  | reset => exact absurd trivial free

/-- Over a poisoned store events change nothing but the window. -/
theorem performAll_of_poisoned (poisoned : s.database.isPoisoned = true) (idle : s.writer = .empty) (k : κ)
    (events : List (Event κ)) :
    ∃ window, performAll s k events = ({ s with window }, k) := by
  induction events generalizing s with
  | nil => exact ⟨s.window, rfl⟩
  | cons e rest ih =>
    have first : ∃ window, (e.perform s k).2 = ({ s with window }, k) := by
      by_cases needs : e.NeedsStore s
      · exact ⟨s.window, by rw [perform_of_poisoned poisoned idle k needs]⟩
      · obtain ⟨answer, window, same⟩ := perform_of_not_needsStore k needs
        exact ⟨window, congrArg (·.2) (same s.database)⟩
    obtain ⟨window, first⟩ := first
    have later : performAll s k (e :: rest) = performAll { s with window } k rest := by
      simp only [performAll, List.foldl_cons, first]
    rw [later]
    exact ih (s := { s with window }) poisoned idle

end Event

end Indexer

open Indexer in
/-- Calls on a database whose closures can panic anywhere. Unless an update is left by a panic the lock stays
usable. Such an update leaves nothing but a poisoned lock, and every call after it is refused. A view, however it
ends, changes no other answer and not the database. A store in memory, with its second lock and with the changes
that wait, does the same. Once an update was left by a panic an indexer over the store does nothing to it any more,
whatever it is asked, and calls no consumer: the events that go to the store fail with a fatal error that tells of
corruption and leave everything, and the others do the same over every store. -/
theorem panic_locks_store {α κ : Type} {db : Database} (usable : db.isPoisoned = false)
    (calls : List (ScopeCall α)) :
    (¬db.Panicked calls → (db.callAll calls).2.isPoisoned = false) ∧
    (∀ front closure back, calls = front ++ .update closure :: back →
      (db.callAll front).2.LeftByPanic closure →
      db.callAll calls =
        ((db.callAll front).1 ++ .error .panicked :: back.map fun _ => .error Database.refused,
          { (db.callAll front).2 with isPoisoned := true })) ∧
    (∀ front closure back, calls = front ++ .view closure :: back →
      db.callAll (front ++ back) =
        ((db.callAll calls).1.eraseIdx front.length, (db.callAll calls).2)) ∧
    (∀ store : MemoryStore, store.toDatabase = db → store.buckets.isPoisoned = false →
      (store.callAll calls).1 = (db.callAll calls).1 ∧
        (store.callAll calls).2.toDatabase = (db.callAll calls).2) ∧
    (db.Panicked calls → ∀ (config : IndexerConfig) (s : Indexer), s.Reachable config →
      s.database = (db.callAll calls).2 → ∀ (k : κ) (events : List (Event κ)),
      ∃ t, Event.performAll s k events = (t, k) ∧ (∃ window, t = { s with window }) ∧
        ∀ e : Event κ,
          (e.NeedsStore t → ∃ error : IndexerError, error.kind = .corruption ∧ error.isFatal = true ∧
            e.perform t k = (.error error, t, k)) ∧
          (¬e.NeedsStore t → ∃ answer window, ∀ database,
            e.perform { t with database } k = (answer, { t with database, window }, k))) := by
  refine ⟨fun calm => ?_, ?_, ?_, ?_, ?_⟩
  · rw [Database.isPoisoned_callAll calm, usable]
  · rintro front closure back rfl panic
    exact Database.callAll_of_panic panic
  · rintro front closure back rfl
    exact db.callAll_view front back closure
  · rintro store rfl unpoisoned
    exact ⟨(store.callAll_eq unpoisoned calls).1, (store.callAll_eq unpoisoned calls).2.1⟩
  · rintro ⟨front, closure, back, rfl, panic⟩ config s reachable database k events
    have poisoned : s.database.isPoisoned = true := by rw [database, Database.callAll_of_panic panic]
    have idle := reachable.ready.writer_eq
    obtain ⟨window, after⟩ := Event.performAll_of_poisoned poisoned idle k events
    refine ⟨{ s with window }, after, ⟨window, rfl⟩, fun e =>
      ⟨fun needs => ?_, Event.perform_of_not_needsStore k⟩⟩
    exact ⟨.store Database.poisonedError, rfl, rfl,
      Event.perform_of_poisoned (s := { s with window }) poisoned idle k needs⟩

/-- A view is left by a panic in the visitor of a scan, and then an update after a write. What the first update
wrote is still there, and after that the index, which has a block to confirm, neither resets nor goes on. -/
theorem panic_locks_store_afterWrite :
    let write (byte : UInt8) (next : Writing (Option Bytes)) := Writing.write (.put .utxos [1] [byte]) next
    let scan : Reading (Option Bytes) := .scan .utxos .all .ascending (fun _ => .panic) fun _ _ => .done none
    let read : Reading (Option Bytes) := .get .utxos [1] fun
      | .ok value? => .done value?
      | .error e => .fail e
    let calls := [.update (write 7 (.done none)), .view scan, .view read, .update (write 8 .panic), .view read,
      .update (write 9 (.done none)), .close]
    let db := ((Database.new .memory).callAll calls).2
    let s : Indexer :=
      { config := { confirmationDepth := 1 }, database := db
        window := ⟨[Fixture.header 1], 1, by decide⟩ }
    let accepts : Consumer Unit := fun _ _ k db => (.ok (), k, db)
    let refused : Except Interrupt (Option (Option Bytes)) := .error Database.refused
    ((Database.new .memory).callAll calls).1 =
      [.ok (some none), .error .panicked, .ok (some (some [7])), .error .panicked, refused, refused, refused] ∧
    db.contents.lookup .utxos [1] = some [7] ∧
    ∀ e ∈ [Indexer.Event.reset, .rollForward (fun _ => .ok []) accepts (Fixture.header 2)],
      ∃ error : IndexerError, error.kind = .corruption ∧ error.isFatal = true ∧
        e.perform s () = (.error error, s, ()) := by
  intro write scan read calls db s accepts refused
  have usable : (Database.new .memory).isPoisoned = false := rfl
  have claim := panic_locks_store (κ := Unit) usable calls
  have panicked : (Database.new .memory).Panicked calls :=
    ⟨calls.take 3, write 8 .panic, calls.drop 4, rfl, rfl⟩
  have reachable : s.Reachable { confirmationDepth := 1 } := by
    have new : Indexer.Reachable _ _ :=
      .new (show Indexer.new { confirmationDepth := 1 } (.new .memory) = _ from rfl)
    exact .store (new.rollForward (fun _ => .ok []) accepts (Fixture.header 1) ()) db
  obtain ⟨t, after, -, events⟩ := claim.2.2.2.2 panicked _ s reachable rfl () []
  obtain rfl : s = t := congrArg (·.1) after
  refine ⟨?_, by decide +kernel, ?_⟩
  · rw [claim.2.1 (calls.take 3) (write 8 .panic) (calls.drop 4) rfl rfl]
    decide +kernel
  · intro e mem
    simp only [List.mem_cons, List.not_mem_nil, or_false] at mem
    obtain rfl | rfl := mem
    · exact (events .reset).1 trivial
    · exact (events _).1 ⟨by decide, Fixture.header 1, rfl, [], rfl⟩

end ChainIndex
