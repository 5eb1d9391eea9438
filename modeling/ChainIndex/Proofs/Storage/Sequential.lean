import ChainIndex.Fixture.Basic
import ChainIndex.Proofs.Storage.Utxos
import ChainIndex.Proofs.Storage.Waits

/-!
# A batch does its changes one after the other

* `Update.Agrees`: over an engine whose calls do not fail, a writing scope does exactly what a direct
  program does, and fails exactly when it fails. `Update.Refines` says less, and says it of engines
  that fail as well.
* `Database.update_commits`: a scope ends in at most one commit.
* `BatchWriter.execute_of_error`, `BatchWriter.execute_failed`: a batch that fails leaves the database, unless
  its commit only waited for the disk in vain.
* `execute_eq_sequential`: so a batch leaves what its changes leave that are made directly on the
  contents, each one after those before it, or it fails and leaves everything; `failed_execution_visible`: only
  a wait in vain does neither.
-/

namespace ChainIndex

variable {ε α β : Type}

/-! ## Engines that do not fail -/

theorem Durable.commit_never (syncWrites : Bool) (w : WriteSet) (c : Contents) :
    commit .never syncWrites w c = (.ok (), w.applyTo c) := by
  have hbucket : ∀ bucket, (if w.cleared.get bucket then
      Faults.raise (Faults.never.scan bucket .all .ascending) else .ok ()) =
        (.ok () : Except StoreError Unit) := fun bucket => by split <;> rfl
  have hlisting : listing .never w = .ok () := by
    simp only [listing, hbucket]
    rfl
  unfold commit
  rw [hlisting, applyBatch_batch]
  cases syncWrites <;> rfl

/-- Without faults every commit succeeds. -/
theorem Engine.commit_of_never {s : Engine} (never : s.faults = .never) (w : WriteSet) :
    s.commit w = (.ok (), { s with contents := w.applyTo s.contents }) := by
  obtain ⟨medium, contents, faults⟩ := s
  subst never
  cases medium with
  | memory => rfl
  | durable syncWrites => simp only [Engine.commit, Durable.commit_never]

/-! ## Scopes over them -/

namespace Update

/-- Over an engine whose calls do not fail, what the scope comes to is what the direct program comes to
on the contents under the pending writes. -/
def Agrees (body : Update ε α) (d : Direct ε α) : Prop :=
  ∀ engine w, engine.faults = .never →
    (body engine w).map (fun p => (p.1, p.2.applyTo engine.contents)) =
      d (w.applyTo engine.contents)

namespace Agrees

theorem pure (a : α) : Agrees (pure a : Update ε α) (pure a) := fun _ _ _ => rfl

theorem bind {body : Update ε α} {d : Direct ε α} {f : α → Update ε β} {g : α → Direct ε β}
    (h : Agrees body d) (h' : ∀ a, Agrees (f a) (g a)) : Agrees (body >>= f) (d >>= g) := by
  intro engine w never
  have hbody : (body >>= f) engine w = (body engine w).bind fun p => f p.1 engine p.2 := rfl
  have hdirect : (d >>= g) (w.applyTo engine.contents) =
      (d (w.applyTo engine.contents)).bind fun p => g p.1 p.2 := rfl
  rw [hbody, hdirect, ← h engine w never]
  cases body engine w with
  | error e => rfl
  | ok p => exact h' p.1 engine p.2 never

theorem forM {f : α → Update ε Unit} {g : α → Direct ε Unit} (h : ∀ a, Agrees (f a) (g a))
    (as : List α) : Agrees (as.forM f) (as.forM g) := by
  induction as with
  | nil => exact pure ()
  | cons a as ih => exact (h a).bind fun _ => ih

theorem write (x : Write) : Agrees (Update.write x : Update ε Unit) (Direct.write x) := by
  intro engine w never
  simp only [Update.write, Except.map, WriteSet.applyTo_add, Direct.write]

variable [ScopeError ε]

theorem get (bucket : Bucket) (key : Bytes) :
    Agrees (Update.get bucket key : Update ε (Option Bytes)) (Direct.get bucket key) := by
  intro engine w never
  simp only [Direct.get, WriteSet.lookup_applyTo, Update.get]
  cases w.lookup bucket key with
  | value bytes => rfl
  | deleted => rfl
  | untouched =>
    rw [Engine.get, never]
    rfl

theorem record [Cbor.Record α] (bytes : Bytes) :
    Agrees (Update.record bytes : Update ε α) (Direct.record bytes) := by
  intro engine w never
  unfold Update.record Direct.record
  cases (readRecord bytes : Except ε α) <;> rfl

end Agrees

end Update

namespace Database

variable [ScopeError ε] {db : Database} {body : Update ε α} {d : Direct ε α}

/-- A scope over a database that does not fail succeeds when the direct program does. -/
theorem update_of_direct_ok {a : α} {c : Contents} (usable : db.isPoisoned = false)
    (never : db.engine.faults = .never) (agrees : Update.Agrees body d)
    (h : d db.contents = .ok (a, c)) :
    db.update body = (.ok a, { db with engine := { db.engine with contents := c } }) := by
  obtain ⟨engine, isPoisoned⟩ := db
  subst usable
  have hbody := agrees engine .empty never
  rw [WriteSet.applyTo_empty] at hbody
  have hd : d engine.contents = .ok (a, c) := h
  rw [hd] at hbody
  unfold update
  cases hrun : body engine .empty with
  | error e => rw [hrun] at hbody; cases hbody
  | ok p =>
    obtain ⟨a', writes⟩ := p
    rw [hrun] at hbody
    cases hbody
    simp only [Bool.false_eq_true, if_false]
    split
    · rename_i hempty
      rw [WriteSet.applyTo_of_isEmpty hempty]
    · rw [Engine.commit_of_never never]

/-- And it fails as the direct program fails. -/
theorem update_of_direct_error {e : ε} (usable : db.isPoisoned = false)
    (never : db.engine.faults = .never) (agrees : Update.Agrees body d)
    (h : d db.contents = .error e) : (db.update body).1 = .error e := by
  have hbody := agrees db.engine .empty never
  rw [WriteSet.applyTo_empty] at hbody
  have hd : d db.engine.contents = .error e := h
  rw [hd] at hbody
  unfold update
  rw [usable]
  cases hrun : body db.engine .empty with
  | error e' => rw [hrun] at hbody; cases hbody; rfl
  | ok p => rw [hrun] at hbody; cases hbody

/-- A scope leaves the database, or it ends in one commit, whose answer it gives. -/
theorem update_commits (db : Database) (body : Update StoreError α) :
    (db.update body).2 = db ∨ ∃ writes engine,
      db.engine.commit writes = ((db.update body).1.map fun _ => (), engine) ∧
        (db.update body).2 = { db with engine } := by
  unfold update
  split
  · exact .inl rfl
  · rename_i usable
    split
    · refine .inl ?_
      cases db
      simp_all [ScopeError.isPanic]
    · rename_i a writes hrun
      split
      · exact .inl rfl
      · right
        split
        · rename_i engine hcommit
          exact ⟨writes, engine, hcommit, rfl⟩
        · rename_i e engine hcommit
          exact ⟨writes, engine, hcommit, rfl⟩

end Database

/-! ## Batches -/

theorem BatchOp.markUsed_agrees [ScopeError ε] (ref : OutputRef) :
    Update.Agrees (markUsed ref : Update ε Unit) (markUsedDirect ref) := by
  refine .bind (.get _ _) fun stored => ?_
  cases stored with
  | none => exact .pure ()
  | some bytes => exact .bind (.record bytes) fun output => .write _

theorem BatchOp.apply_agrees [ScopeError ε] (op : BatchOp) :
    Update.Agrees (apply op : Update ε Unit) op.direct := by
  cases op with
  | setLatestPoint | addBlock | deleteAllOutputs => exact .write _
  | addOutputs outputs => exact .forM (fun _ => .write _) outputs
  | addTxs txs => exact .forM (fun _ => .write _) txs
  | removeOutputs refs soft =>
    refine .forM (fun ref => ?_) refs
    cases soft with
    | true => exact markUsed_agrees ref
    | false => exact .write _

/-- A batch leaves the database, or it ends in one commit, whose answer it gives. -/
theorem BatchWriter.execute_commits (w : BatchWriter) (db : Database) :
    (w.execute db).2.2 = db ∨ ∃ writes engine,
      db.engine.commit writes = ((w.execute db).1, engine) ∧
        (w.execute db).2.2 = { db with engine } := by
  unfold execute
  split
  · exact .inl rfl
  · have hcommits := db.update_commits (w.ops.forM BatchOp.apply)
    have hunit : ∀ answer : Except StoreError Unit, (answer.map fun _ => ()) = answer := fun answer => by
      cases answer <;> rfl
    rwa [hunit] at hcommits

/-- Over a database that does not fail a batch is answered what its changes come to that are made
directly. -/
theorem BatchWriter.execute_answer {w : BatchWriter} {db : Database}
    (usable : db.isPoisoned = false) (never : db.engine.faults = .never) :
    (w.execute db).1 =
      ((w.ops.forM BatchOp.direct : Direct StoreError Unit) db.contents).map (·.1) := by
  have agrees := Update.Agrees.forM (ε := StoreError) BatchOp.apply_agrees w.ops
  unfold execute
  split
  · rename_i hempty
    rw [isEmpty, List.isEmpty_iff] at hempty
    rw [hempty]
    rfl
  · cases hd : (w.ops.forM BatchOp.direct : Direct StoreError Unit) db.contents with
    | error e => exact Database.update_of_direct_error usable never agrees hd
    | ok p => exact congrArg Prod.fst (Database.update_of_direct_ok usable never agrees hd)

/-- A scope whose body fails leaves the database. -/
theorem Database.update_of_error {body : Update StoreError α} {db : Database} {e : StoreError}
    (h : body db.engine .empty = .error e) :
    (∃ e', (db.update body).1 = .error e') ∧ (db.update body).2 = db := by
  obtain ⟨engine, isPoisoned⟩ := db
  have run : body engine .empty = .error e := h
  unfold update
  cases isPoisoned with
  | true => exact ⟨⟨_, rfl⟩, rfl⟩
  | false =>
    rw [run]
    exact ⟨⟨e, rfl⟩, rfl⟩

/-- So does a batch with a change that fails, or a look-up. -/
theorem BatchWriter.execute_of_error {w : BatchWriter} {db : Database} {e : StoreError}
    (h : (w.ops.forM BatchOp.direct : Direct StoreError Unit) db.contents = .error e ∨
      (w.ops.forM BatchOp.apply : Update StoreError Unit) db.engine .empty = .error e) :
    (∃ e', (w.execute db).1 = .error e') ∧ (w.execute db).2.2 = db := by
  have fails : ∃ e', (w.ops.forM BatchOp.apply : Update StoreError Unit) db.engine .empty = .error e' := by
    cases hrun : (w.ops.forM BatchOp.apply : Update StoreError Unit) db.engine .empty with
    | error e' => exact ⟨e', rfl⟩
    | ok p =>
      have direct := Update.Refines.forM BatchOp.apply_refines w.ops _ _ _ _ hrun
      rw [WriteSet.applyTo_empty] at direct
      rcases h with h | h
      · exact absurd (direct.symm.trans h) nofun
      · exact absurd (hrun.symm.trans h) nofun
  obtain ⟨e', fails⟩ := fails
  have ne : w.isEmpty = false := by
    cases hops : w.ops with
    | nil => rw [hops] at fails; cases fails
    | cons op ops => rw [isEmpty, hops]; rfl
  unfold execute
  simp only [ne, Bool.false_eq_true, if_false]
  exact Database.update_of_error fails

/-- A batch that fails otherwise has written nothing, or it has made its changes one after the other, and waited
for the disk in vain. -/
theorem BatchWriter.execute_failed {w : BatchWriter} {db : Database} {e : StoreError}
    (h : (w.execute db).1 = .error e) : (w.execute db).2.2 = db ∨
      db.engine.vainWait? = some e ∧ ∃ c, (w.execute db).2.2 = db.withContents c ∧
        (w.ops.forM BatchOp.direct : Direct StoreError Unit) db.contents = .ok ((), c) := by
  obtain ⟨-, unchanged⟩ | ⟨_, c, left, waits, written⟩ := (w.execute_ends db).of_error h
  · exact .inl unchanged
  · obtain ⟨ok, contents⟩ := Database.left?_eq_some.1 left
    have direct := (BatchWriter.execute_ok (Prod.ext ok rfl)).1
    rw [contents] at direct
    exact .inr ⟨waits, c, written, direct⟩

/-- The changes of a batch wait in the order in which they were pushed, and none waits after the batch
was executed. An execution that succeeds leaves in the five buckets what the changes leave that are made
directly on the contents, one after the other, and over a database that does not fail it succeeds
and fails as they do. It commits at most once. If a change or a look-up fails, the database is as it was. If the
commit fails, it is as it was too, unless the store has taken the batch and only the wait for the disk was
in vain; then the changes are there. Read as outputs by reference, saving sets an output, a removal takes it
away or only marks it as used, one that is not stored is passed over, and deleting all leaves none. -/
theorem execute_eq_sequential (db : Database) (ops : List BatchOp) :
    let w := ops.foldl BatchWriter.push .empty
    let r := w.execute db
    let sequential : Except StoreError (Unit × Contents) :=
      (ops.forM BatchOp.direct : Direct StoreError Unit) db.contents
    w.ops = ops ∧ r.2.1 = .empty ∧
    (r.1 = .ok () → sequential = .ok ((), r.2.2.contents)) ∧
    (db.isPoisoned = false → db.engine.faults = .never → r.1 = sequential.map (·.1)) ∧
    (r.2.2 = db ∨ ∃ writes engine,
      db.engine.commit writes = (r.1, engine) ∧ r.2.2 = { db with engine }) ∧
    (∀ e, sequential = .error e ∨
      (ops.forM BatchOp.apply : Update StoreError Unit) db.engine .empty = .error e →
        (∃ e', r.1 = .error e') ∧ r.2.2 = db) ∧
    (∀ e, r.1 = .error e → r.2.2 = db ∨ db.engine.vainWait? = some e ∧
      ∃ c, r.2.2 = db.withContents c ∧ sequential = .ok ((), c)) ∧
    ∀ m : Utxos, m.StoredIn db.contents → (∀ op ∈ ops, Utxos.StorableOp op) → r.1 = .ok () →
      (ops.foldl Utxos.after m).StoredIn r.2.2.contents := by
  intro w r sequential
  have hops : w.ops = ops := BatchWriter.ops_of_pushed ops
  have hempty : r.2.1 = .empty := w.execute_writer db
  refine ⟨hops, hempty, fun ok => ?_, fun usable never => ?_, w.execute_commits db,
    fun e failed => ?_, fun e failed => ?_, fun m stored storable ok => ?_⟩
  · have executed : w.execute db = (.ok (), r.2.1, r.2.2) := Prod.ext ok rfl
    have hdirect := (BatchWriter.execute_ok executed).1
    rwa [hops] at hdirect
  · have hanswer := BatchWriter.execute_answer (w := w) usable never
    rwa [hops] at hanswer
  · exact BatchWriter.execute_of_error (w := w) (by rwa [hops])
  · have hfailed := BatchWriter.execute_failed (w := w) failed
    rwa [hops] at hfailed
  · have executed : w.execute db = (.ok (), r.2.1, r.2.2) := Prod.ext ok rfl
    have hstored := stored.execute (by rwa [hops]) executed
    rwa [hops] at hstored

/-- Two outputs are saved and removed, everything is deleted, a third output is saved, and it and the first
one are marked as used: the third one is left, marked. Where the record of the first one cannot be
read, marking both fails and leaves the database. -/
theorem execute_replacingOps :
    let saved (index : UInt32) : ReferencedOutput :=
      ⟨⟨Fixture.txHash 1 index, 0⟩, Fixture.output "alice" 5⟩
    let marks : BatchOp := .removeOutputs [(saved 2).ref, (saved 0).ref] true
    let ops : List BatchOp := [.addOutputs [saved 0, saved 1], .removeOutputs [(saved 0).ref] true,
      .removeOutputs [(saved 1).ref] false, .deleteAllOutputs, .addOutputs [saved 2], marks]
    let db : Database := .new .memory
    let torn : Database := { engine := ⟨.durable true,
      Contents.empty.perform (.put .utxos (saved 0).ref.key [0xff]), .never⟩ }
    let r := (ops.foldl BatchWriter.push .empty).execute db
    let s := ([marks].foldl BatchWriter.push .empty).execute torn
    (r.2.2.contents.get .utxos).entries =
      [((saved 2).ref.key, Cbor.Record.encode (saved 2).output.used)] ∧
    (ops.forM BatchOp.direct : Direct StoreError Unit) db.contents = .ok ((), r.2.2.contents) ∧
    s.1.isOk = false ∧ s.2.2 = torn := by
  intro saved marks ops db torn r s
  have succeeded : r.1.isOk = true := by decide +kernel
  have ok : r.1 = .ok () := by
    cases hr : r.1 with
    | error e => rw [hr] at succeeded; cases succeeded
    | ok => rfl
  have fails : Except.isOk (([marks].forM BatchOp.direct : Direct StoreError Unit) torn.contents) =
      false := by decide +kernel
  obtain ⟨e, he⟩ : ∃ e, ([marks].forM BatchOp.direct : Direct StoreError Unit) torn.contents = .error e := by
    cases hd : ([marks].forM BatchOp.direct : Direct StoreError Unit) torn.contents with
    | error e => exact ⟨e, rfl⟩
    | ok => rw [hd] at fails; cases fails
  obtain ⟨⟨e', failed⟩, same⟩ := (execute_eq_sequential torn [marks]).2.2.2.2.2.1 e (.inl he)
  refine ⟨by decide +kernel, (execute_eq_sequential db ops).2.2.1 ok, ?_, same⟩
  exact congrArg Except.isOk failed

/-- The store takes the batch of an output, and the wait for the disk is in vain: the execution fails, and the
output is there. -/
theorem failed_execution_visible :
    let saved : ReferencedOutput := ⟨⟨Fixture.txHash 1 0, 0⟩, Fixture.output "alice" 5⟩
    let db : Database := { engine := ⟨.durable true, .empty, { sync := some (.backend "sync failed") }⟩ }
    let r := (BatchWriter.empty.push (.addOutputs [saved])).execute db
    r.1 = .error (.backend "sync failed") ∧ db.contents.lookup .utxos saved.ref.key = none ∧
      r.2.2.contents.lookup .utxos saved.ref.key = some (Cbor.Record.encode saved.output) := by
  decide +kernel

end ChainIndex
