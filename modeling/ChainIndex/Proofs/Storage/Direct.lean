import ChainIndex.Proofs.Storage.WriteSet
import ChainIndex.Storage.Batch

/-!
# Scopes as if they wrote directly

* `Direct`: programs that read and change contents at once, without pending writes.
* `Update.Refines`: a writing scope does what a direct program does, seen through its pending writes. The
  laws follow the steps of scopes; `Database.update_ok` says it of a scope that was committed.
* `BatchOp.direct`: a change of a batch as a direct program. A batch that succeeds has carried out its
  changes one after the other (`BatchWriter.execute_ok`).
-/

namespace ChainIndex

variable {ε α β : Type}

/-- The bucket that a change is about. -/
def Write.bucket : Write → Bucket
  | put bucket _ _ | delete bucket _ | clear bucket => bucket

theorem Contents.get_perform_of_ne (c : Contents) {b : Bucket} {x : Write} (ne : x.bucket ≠ b) :
    (c.perform x).get b = c.get b := by
  cases x <;> exact (Buckets.get_set ..).trans (if_neg (Ne.symm ne))

/-- Programs that read and change contents at once. -/
abbrev Direct (ε α : Type) := StateT Contents (Except ε) α

namespace Direct

/-- The value under a key. -/
def get (bucket : Bucket) (key : Bytes) : Direct ε (Option Bytes) := fun c =>
  .ok (c.lookup bucket key, c)

/-- Carries out a change. -/
def write (x : Write) : Direct ε Unit := fun c => .ok ((), c.perform x)

/-- The record that a stored value holds. -/
def record [ScopeError ε] [Cbor.Record α] (bytes : Bytes) : Direct ε α := fun c => do
  return (← readRecord bytes, c)

theorem bind_eq_ok {d : Direct ε α} {f : α → Direct ε β} {c c' : Contents} {b : β} :
    (d >>= f) c = .ok (b, c') ↔ ∃ a c₁, d c = .ok (a, c₁) ∧ f a c₁ = .ok (b, c') := by
  have hb : (d >>= f) c = (d c).bind fun p => f p.1 p.2 := rfl
  rw [hb]
  cases d c with
  | error e => simp [Except.bind]
  | ok p =>
    obtain ⟨a, c₁⟩ := p
    constructor
    · exact fun h => ⟨a, c₁, rfl, h⟩
    · rintro ⟨_, _, h, h'⟩
      cases h
      exact h'

/-- What every step keeps, a loop keeps. -/
theorem forM_ok {σ : Type} {g : α → Direct ε Unit} (R : σ → Contents → Prop) (f : σ → α → σ)
    {as : List α} (step : ∀ a ∈ as, ∀ s c c', R s c → g a c = .ok ((), c') → R (f s a) c') (s : σ)
    {c c' : Contents} (h : R s c) (hd : (as.forM g : Direct ε Unit) c = .ok ((), c')) :
    R (as.foldl f s) c' := by
  induction as generalizing s c with
  | nil => cases hd; exact h
  | cons a as ih =>
    obtain ⟨_, c₁, ha, hrest⟩ := bind_eq_ok.1 hd
    exact ih (fun b hb => step b (List.mem_cons_of_mem _ hb)) (f s a)
      (step a List.mem_cons_self s c c₁ h ha) hrest

theorem forM_append_ok {g : α → Direct ε Unit} {as bs : List α} {c d e : Contents}
    (has : (as.forM g : Direct ε Unit) c = .ok ((), d))
    (hbs : (bs.forM g : Direct ε Unit) d = .ok ((), e)) :
    ((as ++ bs).forM g : Direct ε Unit) c = .ok ((), e) := by
  have happend : ((as ++ bs).forM g : Direct ε Unit) = as.forM g >>= fun _ => bs.forM g :=
    List.forM_append
  rw [happend]
  exact bind_eq_ok.2 ⟨(), d, has, hbs⟩

/-- Whenever the program succeeds it leaves a bucket. -/
def Leaves (b : Bucket) (d : Direct ε α) : Prop :=
  ∀ c a c', d c = .ok (a, c') → c'.get b = c.get b

namespace Leaves

variable {b : Bucket}

theorem pure (a : α) : Leaves b (pure a : Direct ε α) := by
  intro c a' c' h
  cases h
  rfl

theorem bind {d : Direct ε α} {f : α → Direct ε β} (h : Leaves b d) (h' : ∀ a, Leaves b (f a)) :
    Leaves b (d >>= f) := by
  intro c y c' hd
  obtain ⟨a, c₁, ha, hf⟩ := bind_eq_ok.1 hd
  exact (h' a c₁ y c' hf).trans (h c a c₁ ha)

theorem forM {g : α → Direct ε Unit} (h : ∀ a, Leaves b (g a)) (as : List α) :
    Leaves b (as.forM g) := by
  induction as with
  | nil => exact pure ()
  | cons a as ih => exact (h a).bind fun _ => ih

theorem get (bucket : Bucket) (key : Bytes) : Leaves b (Direct.get bucket key : Direct ε _) := by
  intro c a c' h
  cases h
  rfl

theorem record [ScopeError ε] [Cbor.Record α] (bytes : Bytes) :
    Leaves b (Direct.record bytes : Direct ε α) := by
  intro c a c' h
  unfold Direct.record at h
  cases hr : (readRecord bytes : Except ε α) with
  | error e => rw [hr] at h; cases h
  | ok a => rw [hr] at h; cases h; rfl

theorem write {x : Write} (ne : x.bucket ≠ b) : Leaves b (Direct.write x : Direct ε Unit) := by
  intro c a c' h
  cases h
  exact c.get_perform_of_ne ne

end Leaves

end Direct

namespace Update

/-- What the scope does is what the direct program does to the contents under the pending writes. -/
def Refines (body : Update ε α) (d : Direct ε α) : Prop :=
  ∀ engine w a w', body engine w = .ok (a, w') →
    d (w.applyTo engine.contents) = .ok (a, w'.applyTo engine.contents)

namespace Refines

theorem pure (a : α) : Refines (pure a : Update ε α) (pure a) := by
  intro engine w b w' h
  cases h
  rfl

theorem bind {body : Update ε α} {d : Direct ε α} {f : α → Update ε β} {g : α → Direct ε β}
    (h : Refines body d) (h' : ∀ a, Refines (f a) (g a)) : Refines (body >>= f) (d >>= g) := by
  intro engine w b w' hb
  have hrun : (body >>= f) engine w = (body engine w).bind fun p => f p.1 engine p.2 := rfl
  rw [hrun] at hb
  cases hr : body engine w with
  | error e => rw [hr] at hb; cases hb
  | ok p =>
    obtain ⟨a, w₁⟩ := p
    rw [hr] at hb
    exact Direct.bind_eq_ok.2 ⟨a, _, h engine w a w₁ hr, h' a engine w₁ b w' hb⟩

theorem forM {f : α → Update ε Unit} {g : α → Direct ε Unit} (h : ∀ a, Refines (f a) (g a))
    (as : List α) : Refines (as.forM f) (as.forM g) := by
  induction as with
  | nil => exact pure ()
  | cons a as ih => exact (h a).bind fun _ => ih

theorem write (x : Write) : Refines (Update.write x : Update ε Unit) (Direct.write x) := by
  intro engine w a w' h
  cases h
  rw [WriteSet.applyTo_add]
  rfl

variable [ScopeError ε]

theorem get (bucket : Bucket) (key : Bytes) :
    Refines (Update.get bucket key : Update ε (Option Bytes)) (Direct.get bucket key) := by
  intro engine w a w' h
  simp only [Direct.get, WriteSet.lookup_applyTo]
  unfold Update.get at h
  split at h
  · rename_i hl; cases h; rw [hl]; rfl
  · rename_i hl; cases h; rw [hl]; rfl
  · rename_i hl
    rw [hl]
    unfold Engine.get at h
    cases hf : engine.faults.get true bucket key with
    | some e => simp [hf, Faults.raise, liftStore, Bind.bind, Except.bind] at h
    | none =>
      simp only [hf, Faults.raise, liftStore, Bind.bind, Except.bind, Pure.pure, Except.pure] at h
      cases h
      rfl

theorem record [Cbor.Record α] (bytes : Bytes) :
    Refines (Update.record bytes : Update ε α) (Direct.record bytes) := by
  intro engine w a w' h
  unfold Update.record at h
  cases hr : (readRecord bytes : Except ε α) with
  | error e => rw [hr] at h; cases h
  | ok b =>
    rw [hr] at h
    cases h
    rw [Direct.record, hr]
    rfl

end Refines

end Update

/-- A scope that succeeds was committed: the contents are those of the direct program, and nothing else
has changed. -/
theorem Database.update_ok [ScopeError ε] {db db' : Database} {body : Update ε α}
    {d : Direct ε α} {a : α} (refines : Update.Refines body d)
    (h : db.update body = (.ok a, db')) :
    d db.contents = .ok (a, db'.contents) ∧
      db' = { db with engine := { db.engine with contents := db'.contents } } := by
  unfold update at h
  split at h
  · cases h
  · split at h
    · cases h
    · rename_i b writes hbody
      have hd := refines _ _ _ _ hbody
      rw [WriteSet.applyTo_empty] at hd
      split at h
      · rename_i hempty
        cases h
        rw [WriteSet.applyTo_of_isEmpty hempty] at hd
        exact ⟨hd, rfl⟩
      · split at h
        · rename_i engine hcommit
          cases h
          have := Engine.commit_ok hcommit
          subst this
          exact ⟨hd, rfl⟩
        · cases h

/-! ## Batches -/

namespace BatchOp

variable [ScopeError ε]

/-- Marks a stored output as used, directly. -/
def markUsedDirect (ref : OutputRef) : Direct ε Unit := do
  match ← Direct.get .utxos ref.key with
  | none => return
  | some bytes =>
    let output : TxOutput ← Direct.record bytes
    Direct.write (.put .utxos ref.key (Cbor.Record.encode { output with isUsed := true }))

/-- A change of a batch, made directly. -/
def direct : BatchOp → Direct ε Unit
  | setLatestPoint point =>
    Direct.write (.put .latestPoint Key.latestPoint (Cbor.Record.encode point))
  | addOutputs outputs =>
    outputs.forM fun o => Direct.write (.put .utxos o.ref.key (Cbor.Record.encode o.output))
  | removeOutputs refs soft =>
    refs.forM fun ref => if soft then markUsedDirect ref else Direct.write (.delete .utxos ref.key)
  | addBlock block => Direct.write (.put .confirmedBlocks block.key (Cbor.Record.encode block))
  | addTxs txs =>
    txs.forM fun tx => Direct.write (.put .unprocessedTxs tx.key (Cbor.Record.encode tx))
  | deleteAllOutputs => Direct.write (.clear .utxos)

theorem markUsed_refines (ref : OutputRef) :
    Update.Refines (markUsed ref : Update ε Unit) (markUsedDirect ref) := by
  refine .bind (.get _ _) fun stored => ?_
  cases stored with
  | none => exact .pure ()
  | some bytes => exact .bind (.record bytes) fun output => .write _

theorem apply_refines (op : BatchOp) : Update.Refines (apply op : Update ε Unit) op.direct := by
  cases op with
  | setLatestPoint | addBlock | deleteAllOutputs => exact .write _
  | addOutputs outputs => exact .forM (fun _ => .write _) outputs
  | addTxs txs => exact .forM (fun _ => .write _) txs
  | removeOutputs refs soft =>
    refine .forM (fun ref => ?_) refs
    cases soft with
    | true => exact markUsed_refines ref
    | false => exact .write _

/-- The bucket that a change is about. -/
def bucket : BatchOp → Bucket
  | setLatestPoint _ => .latestPoint
  | addBlock _ => .confirmedBlocks
  | addTxs _ => .unprocessedTxs
  | addOutputs _ | removeOutputs _ _ | deleteAllOutputs => .utxos

/-- A change leaves every other bucket. -/
theorem direct_leaves {op : BatchOp} {b : Bucket} (ne : op.bucket ≠ b) :
    Direct.Leaves b (op.direct : Direct ε Unit) := by
  cases op with
  | setLatestPoint | addBlock | deleteAllOutputs => exact .write ne
  | addOutputs outputs =>
    refine .forM (fun o => .write ?_) outputs
    exact ne
  | addTxs txs =>
    refine .forM (fun tx => .write ?_) txs
    exact ne
  | removeOutputs refs soft =>
    refine .forM (fun ref => ?_) refs
    cases soft with
    | false => exact .write ne
    | true =>
      refine .bind (.get _ _) fun stored => ?_
      cases stored with
      | none => exact .pure ()
      | some bytes => exact .bind (.record bytes) fun _ => .write ne

theorem get_of_direct {op : BatchOp} {c c' : Contents}
    (h : (op.direct : Direct ε Unit) c = .ok ((), c')) {b : Bucket} (ne : b ≠ op.bucket) :
    c'.get b = c.get b := direct_leaves ne.symm c () c' h

end BatchOp

theorem BatchWriter.ops_foldl_push (ops : List BatchOp) (w : BatchWriter) :
    (ops.foldl push w).ops = w.ops ++ ops := by
  induction ops generalizing w with
  | nil => simp
  | cons op ops ih => rw [List.foldl_cons, ih]; simp [push]

theorem BatchWriter.ops_of_pushed (ops : List BatchOp) : (ops.foldl push .empty).ops = ops := by
  rw [ops_foldl_push]
  rfl

/-- A batch that succeeds has made its changes one after the other, and changed nothing else. -/
theorem BatchWriter.execute_ok {w w' : BatchWriter} {db db' : Database}
    (h : w.execute db = (.ok (), w', db')) :
    (w.ops.forM BatchOp.direct : Direct StoreError Unit) db.contents = .ok ((), db'.contents) ∧
      db' = { db with engine := { db.engine with contents := db'.contents } } := by
  unfold execute at h
  split at h
  · rename_i hempty
    cases h
    rw [isEmpty, List.isEmpty_iff] at hempty
    rw [hempty]
    exact ⟨rfl, rfl⟩
  · obtain ⟨hr, hw⟩ := Prod.mk.inj h
    exact Database.update_ok (.forM BatchOp.apply_refines w.ops)
      (Prod.ext hr (Prod.mk.inj hw).2)

end ChainIndex
