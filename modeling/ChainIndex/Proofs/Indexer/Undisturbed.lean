import ChainIndex.Proofs.Indexer.Marked
import ChainIndex.Proofs.Indexer.Specification

/-!
# Confirmations over a store that does not fail

* `Utxos.StoredIn.direct_succeeds`: over outputs that can be read every change of a batch succeeds, and so
  does the batch over a sound database (`Utxos.StoredIn.execute_succeeds`).
* `Indexer.confirm_succeeds`: over a sound database whose entries can be read every confirmation succeeds.
* `Database.Sound.markProcessed_eq`: marking does to a sound database what it does to the contents.
-/

namespace ChainIndex

/-- A program for each element succeeds if what its steps keep lets every step succeed. -/
theorem Direct.forM_succeeds {ε α σ : Type} {g : α → Direct ε Unit} (R : σ → Contents → Prop)
    (f : σ → α → σ) (as : List α)
    (step : ∀ a ∈ as, ∀ s c, R s c → ∃ c', g a c = .ok ((), c') ∧ R (f s a) c') {s : σ} {c : Contents}
    (h : R s c) : ∃ c', (as.forM g : Direct ε Unit) c = .ok ((), c') ∧ R (as.foldl f s) c' := by
  induction as generalizing s c with
  | nil => exact ⟨c, rfl, h⟩
  | cons a as ih =>
    obtain ⟨here, later⟩ := List.forall_mem_cons.1 step
    obtain ⟨c₁, first, kept⟩ := here s c h
    obtain ⟨c₂, rest, kept⟩ := ih later kept
    exact ⟨c₂, Direct.bind_eq_ok.2 ⟨(), c₁, first, rest⟩, kept⟩

namespace Utxos.StoredIn

variable {m : Utxos} {c : Contents}

theorem markUsed_succeeds (h : StoredIn m c) (ref : OutputRef) :
    ∃ c', (BatchOp.markUsedDirect ref : Direct StoreError Unit) c = .ok ((), c') := by
  have get : (Direct.get .utxos ref.key : Direct StoreError _) c =
      .ok ((m ref).map Cbor.Record.encode, c) := by
    rw [← h.lookup_eq]
    rfl
  cases hm : m ref with
  | none => exact ⟨c, Direct.bind_eq_ok.2 ⟨none, c, by rw [get, hm]; rfl, rfl⟩⟩
  | some o =>
    have read : (Direct.record (Cbor.Record.encode o) : Direct StoreError TxOutput) c = .ok (o, c) := by
      rw [Direct.record, readRecord, TxOutput.decode_encode (h.storable ref o hm)]
      rfl
    exact ⟨_, Direct.bind_eq_ok.2 ⟨some (Cbor.Record.encode o), c, by rw [get, hm]; rfl,
      Direct.bind_eq_ok.2 ⟨o, c, read, rfl⟩⟩⟩

/-- Every change of a batch succeeds. -/
theorem direct_succeeds (h : StoredIn m c) (op : BatchOp) :
    ∃ c', (op.direct : Direct StoreError Unit) c = .ok ((), c') := by
  have writes {α : Type} (as : List α) (x : α → Write) :
      ∃ c', (as.forM fun a => Direct.write (x a) : Direct StoreError Unit) c = .ok ((), c') := by
    obtain ⟨c', answer, -⟩ := Direct.forM_succeeds (ε := StoreError) (fun (_ : Unit) _ => True)
      (fun _ _ => ()) as (fun a _ _ c _ => ⟨c.perform (x a), rfl, trivial⟩) (s := ()) (c := c) trivial
    exact ⟨c', answer⟩
  cases op with
  | setLatestPoint | addBlock | deleteAllOutputs => exact ⟨_, rfl⟩
  | addOutputs outputs => exact writes outputs _
  | addTxs txs => exact writes txs _
  | removeOutputs refs soft =>
    cases soft with
    | false => exact writes refs _
    | true =>
      obtain ⟨c', answer, -⟩ := Direct.forM_succeeds StoredIn (spend true) refs
        (fun ref _ m c stored => by
          obtain ⟨c', answer⟩ := stored.markUsed_succeeds ref
          exact ⟨c', answer, stored.markUsed answer⟩) h
      exact ⟨c', answer⟩

/-- A batch succeeds over a sound database. -/
theorem execute_succeeds {db : Database} (h : StoredIn m db.contents) (sound : db.Sound)
    {w : BatchWriter} (storable : ∀ op ∈ w.ops, StorableOp op) :
    ∃ db', w.execute db = (.ok (), .empty, db') := by
  obtain ⟨c', answer, -⟩ := Direct.forM_succeeds StoredIn after w.ops
    (fun op hop m c stored => by
      obtain ⟨c', answer⟩ := stored.direct_succeeds op
      exact ⟨c', answer, stored.direct (storable op hop) answer⟩) h
  have ok : (w.execute db).1 = .ok () := by
    rw [BatchWriter.execute_answer sound.usable sound.never, answer]
    rfl
  exact ⟨(w.execute db).2.2, Prod.ext ok (Prod.ext (w.execute_writer db) rfl)⟩

end Utxos.StoredIn

/-! ## Confirmations -/

theorem mapM_succeeds {ε α β : Type} {f : α → Except ε β} (each : ∀ a, ∃ b, f a = .ok b) (as : List α) :
    ∃ bs, as.mapM f = .ok bs := by
  induction as with
  | nil => exact ⟨[], rfl⟩
  | cons a as ih =>
    obtain ⟨b, hb⟩ := each a
    obtain ⟨bs, hbs⟩ := ih
    exact ⟨b :: bs, by rw [List.mapM_cons, hb, hbs]; rfl⟩

section Resolve

variable {ε : Type} {lookup : OutputRef → Except ε TxOutput} (known : ∀ r, ∃ output, lookup r = .ok output)

include known

theorem resolveInput_succeeds (produced : List ReferencedOutput) (input : ReferencedOutput) :
    ∃ input', resolveInput lookup produced input = .ok input' := by
  unfold resolveInput
  split
  · split
    · exact ⟨_, rfl⟩
    · obtain ⟨output, hl⟩ := known input.ref
      rw [hl]
      exact ⟨_, rfl⟩
  · exact ⟨_, rfl⟩

theorem resolveFrom_succeeds (produced : List ReferencedOutput) (txs : List Tx) :
    ∃ txs', resolveFrom lookup produced txs = .ok txs' := by
  induction txs generalizing produced with
  | nil => exact ⟨[], rfl⟩
  | cons tx txs ih =>
    obtain ⟨inputs, hinputs⟩ := mapM_succeeds (resolveInput_succeeds known produced) tx.inputs
    obtain ⟨rest, hrest⟩ := ih (tx.produced.reverse ++ produced)
    exact ⟨{ tx with inputs } :: rest, by rw [resolveFrom, hinputs, hrest]; rfl⟩

/-- Looking up inputs succeeds if every look-up does. -/
theorem resolveInputs_succeeds (txs : List Tx) : ∃ txs', resolveInputs lookup txs = .ok txs' :=
  resolveFrom_succeeds known [] txs

end Resolve

/-- Over a sound database whose entries can be read every confirmation succeeds. -/
theorem Indexer.confirm_succeeds {config : IndexerConfig} {s : Indexer} (ready : s.Ready config)
    (sound : s.database.Sound) (intact : s.database.contents.Intact) (header : BlockHeader)
    {txs : List Tx} (few : txs.length < UInt64.size) (storable : ∀ tx ∈ txs, tx.Storable) :
    ∃ c t, s.confirm header txs = (.ok c, t) := by
  have stored := intact.utxos_storedIn
  obtain ⟨resolved, hresolved⟩ :=
    resolveInputs_succeeds (fun r => ⟨_, stored.txOutput_eq sound r⟩) txs
  have tame : s.database.engine.Intact := ⟨sound.never ▸ .never, intact⟩
  have legible := resolveInputs_legible (Database.txOutput_legible tame) storable
  rw [hresolved] at legible
  have tidy : (Confirmation.ofBlock s.config header resolved).Storable :=
    Confirmation.storable_ofBlock (legible.1.symm ▸ few) legible.2
  have ops : ∀ op ∈ (Confirmation.ofBlock s.config header resolved).ops s.config.softDelete,
      Utxos.StorableOp op := by
    simp only [Confirmation.ops, List.forall_mem_cons]
    exact ⟨trivial, trivial, trivial, tidy.saved, trivial, List.forall_mem_nil _⟩
  obtain ⟨database, hexecute⟩ := stored.execute_succeeds sound
    (w := ((Confirmation.ofBlock s.config header resolved).ops s.config.softDelete).foldl
      BatchWriter.push s.writer) (by rwa [ready.writer_eq, BatchWriter.ops_of_pushed])
  exact ⟨_, _, confirm_of_ok hresolved hexecute⟩

/-! ## Marking -/

/-- Marking does to a sound database what it does to the contents. -/
theorem Database.Sound.markProcessed_eq {db : Database} (sound : db.Sound) (txs : List Tx) :
    db.markProcessed txs = (.ok (), db.withContents (txs.foldl Contents.moved db.contents)) := by
  unfold markProcessed
  split
  · rename_i none
    rw [List.isEmpty_iff.1 none]
    rfl
  · obtain ⟨c', answer, moved⟩ := Direct.forM_succeeds (ε := StoreError) (fun d c => c = d) Contents.moved
      (g := fun tx => do
        Direct.write (.delete .unprocessedTxs tx.key)
        Direct.write (.put .processedTxs tx.key (Cbor.Record.encode tx)))
      txs (fun tx _ d c same => ⟨d.moved tx, by rw [same]; rfl, rfl⟩) rfl
    subst moved
    exact update_of_direct_ok sound.usable sound.never
      (.forM (fun tx => .bind (.write _) fun _ => .write _) txs) answer

end ChainIndex
