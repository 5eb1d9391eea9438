import ChainIndex.Proofs.Storage.Atomic
import ChainIndex.Proofs.Storage.Direct
import ChainIndex.Storage.Confirmed

/-!
# Commits that wait for the disk in vain

A durable engine carries out a write set and then waits for the disk, if it is told to. If only the wait fails, the
commit is answered with an error although its changes are there.

* `Engine.vainWait?`: the error of such a wait. `Engine.synced` is the engine that does not wait in vain; apart from
  the answer a commit does the same to it (`Engine.commit_synced`).
* `Update.IgnoresSync`: scopes whose body has nothing to do with the wait. The laws follow the steps of scopes.
* `Database.Ends`: how a call ends, given what it writes where the disk is reached. Scopes, batches and marking
  end like this (`Database.update_ends`, `BatchWriter.execute_ends`, `Database.markProcessed_ends`).
-/

namespace ChainIndex

variable {ε α β : Type}

/-! ## Engines -/

namespace Engine

/-- The error of a commit that is carried out and then waits for the disk in vain. -/
def vainWait? (s : Engine) : Option StoreError :=
  if s.medium = .durable true then s.faults.sync else none

theorem vainWait?_eq_none {s : Engine} : s.vainWait? = none ↔ s.ReachesDisk := by
  unfold vainWait? ReachesDisk
  split <;> simp [*]

/-- The engine as it would be if commits reached the disk. -/
def synced (s : Engine) : Engine := { s with faults := { s.faults with sync := none } }

/-- A commit fails and has written nothing, or it is carried out, and then answered as the wait for the disk is. -/
theorem commit_synced (s : Engine) (w : WriteSet) :
    (∃ e, s.synced.commit w = (.error e, s.synced) ∧ s.commit w = (.error e, s)) ∨
    (s.synced.commit w = (.ok (), { s.synced with contents := w.applyTo s.contents }) ∧
      s.commit w = (Faults.raise s.vainWait?, { s with contents := w.applyTo s.contents })) := by
  obtain ⟨medium, contents, faults⟩ := s
  cases medium with
  | memory =>
    simp only [commit, synced, vainWait?]
    cases faults.commit w with
    | some e => exact .inl ⟨e, rfl, rfl⟩
    | none => exact .inr ⟨rfl, rfl⟩
  | durable syncWrites =>
    have listed : Durable.listing { faults with sync := none } w = Durable.listing faults w := rfl
    simp only [commit, synced, vainWait?, Durable.commit, listed]
    cases Durable.listing faults w with
    | error e => exact .inl ⟨e, rfl, rfl⟩
    | ok u =>
      cases faults.commit w with
      | some e => exact .inl ⟨e, rfl, rfl⟩
      | none =>
        simp only [Durable.applyBatch_batch]
        cases syncWrites <;> exact .inr ⟨rfl, rfl⟩

end Engine

/-! ## Scopes -/

namespace Update

/-- The body of a scope has nothing to do with the wait for the disk. -/
def IgnoresSync (body : Update ε α) : Prop := ∀ engine w, body engine.synced w = body engine w

namespace IgnoresSync

theorem pure (a : α) : IgnoresSync (pure a : Update ε α) := fun _ _ => rfl

theorem bind {body : Update ε α} {f : α → Update ε β} (h : IgnoresSync body)
    (h' : ∀ a, IgnoresSync (f a)) : IgnoresSync (body >>= f) := by
  intro engine w
  have run (engine : Engine) : (body >>= f) engine w =
      (body engine w).bind fun p => f p.1 engine p.2 := rfl
  rw [run, run, h engine w]
  cases body engine w with
  | error e => rfl
  | ok p => exact h' p.1 engine p.2

theorem forM {f : α → Update ε Unit} (h : ∀ a, IgnoresSync (f a)) (as : List α) :
    IgnoresSync (as.forM f) := by
  induction as with
  | nil => exact pure ()
  | cons a as ih => exact (h a).bind fun _ => ih

theorem write (x : Write) : IgnoresSync (Update.write x : Update ε Unit) := fun _ _ => rfl

theorem get [ScopeError ε] (bucket : Bucket) (key : Bytes) :
    IgnoresSync (Update.get bucket key : Update ε (Option Bytes)) := fun _ _ => rfl

theorem record [ScopeError ε] [Cbor.Record α] (bytes : Bytes) :
    IgnoresSync (Update.record bytes : Update ε α) := fun _ _ => rfl

end IgnoresSync

end Update

theorem BatchOp.apply_ignoresSync [ScopeError ε] (op : BatchOp) :
    Update.IgnoresSync (apply op : Update ε Unit) := by
  cases op with
  | setLatestPoint | addBlock | deleteAllOutputs => exact .write _
  | addOutputs outputs => exact .forM (fun _ => .write _) outputs
  | addTxs txs => exact .forM (fun _ => .write _) txs
  | removeOutputs refs soft =>
    refine .forM (fun ref => ?_) refs
    cases soft with
    | false => exact .write _
    | true =>
      refine .bind (.get _ _) fun stored => ?_
      cases stored with
      | none => exact .pure ()
      | some bytes => exact .bind (.record bytes) fun _ => .write _

namespace Database

/-- The database as it would be if commits reached the disk. -/
def synced (db : Database) : Database := { db with engine := db.engine.synced }

/-- The value and the contents that a call has left, if it was answered without an error. -/
def left? : Except StoreError α × Database → Option (α × Contents)
  | (.ok a, db) => some (a, db.contents)
  | (.error _, _) => none

/-- How a call on a database ends, given what it leaves where the disk is reached. -/
inductive Ends (db : Database) : Option (α × Contents) → Except StoreError α × Database → Prop
  /-- It fails, and nothing is written. -/
  | refused (e : StoreError) : Ends db none (.error e, db)
  /-- It succeeds. -/
  | done (a : α) (c : Contents) : Ends db (some (a, c)) (.ok a, db.withContents c)
  /-- It fails, but only by waiting for the disk in vain. -/
  | vain (a : α) (c : Contents) (e : StoreError) (waits : db.engine.vainWait? = some e) :
      Ends db (some (a, c)) (.error e, db.withContents c)

theorem left?_eq_some {r : Except StoreError α × Database} {a : α} {c : Contents} :
    left? r = some (a, c) ↔ r.1 = .ok a ∧ r.2.contents = c := by
  obtain ⟨_ | _, _⟩ := r <;> simp [left?]

/-- A call that failed has written nothing, or it waited for the disk in vain. -/
theorem Ends.of_error {db : Database} {left : Option (α × Contents)} {e : StoreError}
    {r : Except StoreError α × Database} (h : db.Ends left r) (failed : r.1 = .error e) :
    (left = none ∧ r.2 = db) ∨ ∃ a c, left = some (a, c) ∧ db.engine.vainWait? = some e ∧
      r.2 = db.withContents c := by
  cases h with
  | refused => exact .inl ⟨rfl, rfl⟩
  | done => cases failed
  | vain a c e waits =>
    cases failed
    exact .inr ⟨a, c, rfl, waits, rfl⟩

/-- A call that succeeds does so where the disk is reached. -/
theorem Ends.isOk {db : Database} {r r' : Except StoreError α × Database} (h : db.Ends (left? r) r')
    (ok : r'.1.isOk = true) : r.1.isOk = true := by
  obtain ⟨_ | a, after⟩ := r
  · cases (h : db.Ends none r')
    cases ok
  · rfl

/-- Where the disk is reached it succeeds only then. -/
theorem Ends.isOk_eq {db : Database} {r r' : Except StoreError α × Database} (h : db.Ends (left? r) r')
    (disk : db.engine.ReachesDisk) : r'.1.isOk = r.1.isOk := by
  obtain ⟨_ | a, after⟩ := r
  · cases (h : db.Ends none r')
    rfl
  · cases (h : db.Ends (some (a, after.contents)) r') with
    | done => rfl
    | vain _ _ e waits =>
      rw [Engine.vainWait?_eq_none.2 disk] at waits
      cases waits

/-- A scope ends like this. -/
theorem update_ends {body : Update StoreError α} (ignores : body.IgnoresSync) (db : Database) :
    db.Ends (left? (db.synced.update body)) (db.update body) := by
  obtain ⟨engine, isPoisoned⟩ := db
  have run : body engine.synced .empty = body engine .empty := ignores engine .empty
  cases isPoisoned with
  | true => exact .refused poisonedError
  | false =>
    simp only [update, synced, run, Bool.false_eq_true, if_false]
    cases body engine .empty with
    | error e => exact .refused e
    | ok p =>
      obtain ⟨a, writes⟩ := p
      dsimp only
      split
      · exact .done a engine.contents
      · obtain ⟨e, synced, commit⟩ | ⟨synced, commit⟩ := engine.commit_synced writes
        · rw [synced, commit]
          exact .refused e
        · rw [synced, commit]
          cases waits : engine.vainWait? with
          | none => exact .done a _
          | some e => exact .vain a _ e waits

/-- Marking ends like this. -/
theorem markProcessed_ends (db : Database) (txs : List Tx) :
    db.Ends (left? (db.synced.markProcessed txs)) (db.markProcessed txs) := by
  unfold markProcessed
  split
  · exact .done () db.contents
  · exact update_ends (.forM (fun tx => .bind (.write _) fun _ => .write _) txs) db

end Database

/-- A batch ends like this. -/
theorem BatchWriter.execute_ends (w : BatchWriter) (db : Database) :
    db.Ends (Database.left? ((w.execute db.synced).1, (w.execute db.synced).2.2))
      ((w.execute db).1, (w.execute db).2.2) := by
  unfold execute
  split
  · exact .done () db.contents
  · exact Database.update_ends (.forM BatchOp.apply_ignoresSync w.ops) db

end ChainIndex
