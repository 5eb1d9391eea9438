import ChainIndex.Proofs.Cbor.Tx
import ChainIndex.Proofs.Storage.Atomic
import ChainIndex.Proofs.Storage.Utxos

/-!
# Entries that can be read

* `Bucket.Holds`: an entry as its bucket has them: the octets of a record, under the key of the record.
  `Contents.Intact`: every entry is one. A change that sets none but such entries keeps this
  (`Contents.Intact.perform`).
* `Legible`: an answer, or an error that does not say that something stored cannot be read
  (`StoreError.isUnreadable`). Engines whose faults are `Faults.Tame` report failures of their own only.
* `Database.latestPoint?_legible`, `Database.txOutput_legible` and their like: if every entry is one of its
  bucket, every query is legible.
* `Update.Tidy`: a writing scope that is legible, and leaves contents that can be read. The changes of
  batches are (`BatchOp.apply_tidy`), and so is marking (`Database.markProcessed_intact`).
-/

namespace ChainIndex

variable {α β σ : Type}

/-! ## Entries -/

/-- An entry of a bucket: the octets of a record, under its key. -/
def Bucket.Holds (key value : Bytes) : Bucket → Prop
  | utxos => ∃ (ref : OutputRef) (o : TxOutput), o.Storable ∧ key = ref.key ∧
      value = Cbor.Record.encode o
  | latestPoint => ∃ p : Point, key = Key.latestPoint ∧ value = Cbor.Record.encode p
  | unprocessedTxs | processedTxs => ∃ tx : Tx, tx.Storable ∧ key = tx.key ∧
      value = Cbor.Record.encode tx
  | confirmedBlocks => ∃ b : ConfirmedBlock, b.Storable ∧ key = b.key ∧ value = Cbor.Record.encode b

/-- A change that sets an entry sets one of its bucket. -/
def Write.Holds : Write → Prop
  | put bucket key value => bucket.Holds key value
  | delete _ _ | clear _ => True

namespace Contents

/-- Every entry is one of its bucket. -/
def Intact (c : Contents) : Prop :=
  ∀ bucket key value, c.lookup bucket key = some value → bucket.Holds key value

theorem Intact.empty : Intact .empty := by
  intro bucket key value h
  cases bucket <;> cases h

theorem Intact.perform {c : Contents} (h : c.Intact) {x : Write} (hx : x.Holds) :
    (c.perform x).Intact := by
  intro bucket key value hl
  rw [lookup_perform] at hl
  cases hv : x.value? bucket key with
  | none =>
    rw [hv] at hl
    exact h bucket key value hl
  | some value? =>
    rw [hv] at hl
    obtain rfl : value? = some value := hl
    -- Only setting an entry leaves a value.
    cases x with
    | put b k v =>
      simp only [Write.value?] at hv
      split at hv
      · rename_i same
        cases hv
        rw [same.1, same.2]
        exact hx
      · cases hv
    | delete b k => simp only [Write.value?] at hv; split at hv <;> cases hv
    | clear b => simp only [Write.value?] at hv; split at hv <;> cases hv

end Contents

/-! ## Answers -/

/-- Whether an error says that a stored key or value cannot be read, or that a bucket is not there. -/
def StoreError.isUnreadable : StoreError → Bool
  | decode _ _ | invalidKey _ _ | bucketNotFound _ => true
  | backend _ | io _ | encode _ _ | poisoned _ | config _ => false

/-- Whether an error is one that a storage engine reports by itself. -/
def StoreError.isFailure : StoreError → Bool
  | backend _ | io _ => true
  | _ => false

theorem StoreError.isUnreadable_of_isFailure {e : StoreError} (h : e.isFailure = true) :
    e.isUnreadable = false := by
  cases e <;> first | rfl | cases h

/-- An answer of which something holds, or an error that does not say that something cannot be read. -/
def Legible (P : α → Prop) : Except StoreError α → Prop
  | .ok a => P a
  | .error e => e.isUnreadable = false

namespace Legible

variable {P : α → Prop} {Q : β → Prop} {r : Except StoreError α}

theorem imp {P' : α → Prop} (h : Legible P r) (hP : ∀ a, P a → P' a) : Legible P' r := by
  cases r with
  | ok a => exact hP a h
  | error e => exact h

theorem bind {f : α → Except StoreError β} (h : Legible P r) (h' : ∀ a, P a → Legible Q (f a)) :
    Legible Q (r >>= f) := by
  cases r with
  | ok a => exact h' a h
  | error e => exact h

theorem view_bind {body : View StoreError α} {f : α → View StoreError β} {s : Engine}
    (h : Legible P (body s)) (h' : ∀ a, P a → Legible Q (f a s)) : Legible Q ((body >>= f) s) :=
  bind h h'

theorem forM {f : α → Except StoreError Unit} (h : ∀ a, Legible (fun _ => True) (f a))
    (as : List α) : Legible (fun _ => True) (as.forM f) := by
  induction as with
  | nil => exact trivial
  | cons a as ih => exact (h a).bind fun _ _ => ih

theorem raise {fault : Option StoreError} (h : ∀ e, fault = some e → e.isFailure = true) :
    Legible (fun _ => True) (Faults.raise fault) := by
  cases fault with
  | none => exact trivial
  | some e => exact StoreError.isUnreadable_of_isFailure (h e rfl)

/-- The octets of a record are read as the record. -/
theorem readRecord [Cbor.Record α] {a : α}
    (h : Cbor.Record.decode (Cbor.Record.encode a) = .ok a) :
    Legible (· = a) (readRecord (Cbor.Record.encode a)) := by
  rw [ChainIndex.readRecord, h]
  exact rfl

/-- What a visitor keeps on every entry, a visit keeps. -/
theorem visit {I : σ → Prop} {visitor : σ → Entry → Except StoreError (σ × Bool)}
    {entries : List Entry} (step : ∀ s, I s → ∀ e ∈ entries, Legible (fun r => I r.1) (visitor s e))
    {s : σ} (hs : I s) : Legible I (View.visit visitor s entries) := by
  induction entries generalizing s with
  | nil => exact hs
  | cons e rest ih =>
    refine (step s hs e List.mem_cons_self).bind fun r hr => ?_
    dsimp only
    split
    · exact ih (fun s hs e he => step s hs e (List.mem_cons_of_mem _ he)) hr
    · exact hr

end Legible

/-! ## Engines -/

/-- Calls that fail report a failure of the engine. -/
structure Faults.Tame (faults : Faults) : Prop where
  get : ∀ writing bucket key e, faults.get writing bucket key = some e → e.isFailure = true
  scan : ∀ bucket range direction e, faults.scan bucket range direction = some e →
    e.isFailure = true
  commit : ∀ w e, faults.commit w = some e → e.isFailure = true
  sync : ∀ e, faults.sync = some e → e.isFailure = true

theorem Faults.Tame.never : Tame .never where
  get _ _ _ _ h := nomatch h
  scan _ _ _ _ h := nomatch h
  commit _ _ h := nomatch h
  sync _ h := nomatch h

theorem KeyMap.mem_entriesIn {m : KeyMap α} {range : KeyRange} {direction : Direction}
    {e : Bytes × α} (h : e ∈ m.entriesIn range direction) : m.get? e.1 = some e.2 := by
  cases direction with
  | ascending => exact get?_eq_some_iff.2 (List.mem_filter.1 h).1
  | descending => exact get?_eq_some_iff.2 (List.mem_filter.1 (List.mem_reverse.1 h)).1

theorem Durable.commit_legible {faults : Faults} (tame : faults.Tame) (syncWrites : Bool)
    (w : WriteSet) (c : Contents) :
    Legible (fun _ => True) (Durable.commit faults syncWrites w c).1 ∧
      ((Durable.commit faults syncWrites w c).2 = c ∨
        (Durable.commit faults syncWrites w c).2 = w.applyTo c) := by
  have hlisting : Legible (fun _ => True) (Durable.listing faults w) := by
    refine .forM (fun bucket => ?_) Bucket.all
    split
    · exact .raise (tame.scan bucket .all .ascending)
    · exact trivial
  unfold Durable.commit
  rw [Durable.applyBatch_batch]
  split
  · rename_i e h
    rw [h] at hlisting
    exact ⟨hlisting, .inl rfl⟩
  · split
    · rename_i e h
      exact ⟨StoreError.isUnreadable_of_isFailure (tame.commit w e h), .inl rfl⟩
    · simp only
      split
      · exact ⟨.raise tame.sync, .inr rfl⟩
      · exact ⟨trivial, .inr rfl⟩

/-- An engine whose entries can all be read, and that does not say otherwise by itself. -/
structure Engine.Intact (s : Engine) : Prop where
  tame : s.faults.Tame
  contents : s.contents.Intact

namespace Engine

variable {s : Engine}

theorem Intact.new (medium : Medium) : (new medium).Intact := ⟨.never, .empty⟩

theorem get_legible (tame : s.faults.Tame) (writing : Bool) (bucket : Bucket) (key : Bytes) :
    Legible (· = s.contents.lookup bucket key)
      (liftStore (s.get writing bucket key) : Except StoreError _) := by
  have h : Legible (· = s.contents.lookup bucket key) (s.get writing bucket key) :=
    (Legible.raise (tame.get writing bucket key)).bind fun _ _ => rfl
  cases hr : s.get writing bucket key with
  | ok value? => rw [hr] at h; exact h
  | error e => rw [hr] at h; exact h

/-- What a visitor keeps on every stored entry, a scan keeps. -/
theorem scan_legible (tame : s.faults.Tame) {I : σ → Prop} {bucket : Bucket} {range : KeyRange}
    {direction : Direction} {visitor : σ → Entry → Except StoreError (σ × Bool)}
    (step : ∀ st, I st → ∀ key value, s.contents.lookup bucket key = some value →
      Legible (fun r => I r.1) (visitor st (key, value)))
    {init : σ} (hinit : I init) :
    Legible I ((View.scan bucket range direction init visitor : View StoreError σ) s) := by
  have hscan : Legible (· = (s.contents.get bucket).entriesIn range direction)
      (liftStore (s.scan bucket range direction) : Except StoreError _) := by
    have hs : Legible (· = (s.contents.get bucket).entriesIn range direction)
        (s.scan bucket range direction) :=
      (Legible.raise (tame.scan bucket range direction)).bind fun _ _ => rfl
    cases h : s.scan bucket range direction with
    | ok entries => rw [h] at hs; exact hs
    | error e => rw [h] at hs; exact hs
  refine hscan.bind fun entries hentries => ?_
  subst hentries
  exact .visit (fun st hst e he => step st hst e.1 e.2 (KeyMap.mem_entriesIn he)) hinit

/-- A commit leaves the contents or carries the write set out, also when it fails. -/
theorem commit_legible (tame : s.faults.Tame) (w : WriteSet) :
    Legible (fun _ => True) (s.commit w).1 ∧
      ((s.commit w).2.contents = s.contents ∨ (s.commit w).2.contents = w.applyTo s.contents) := by
  unfold commit
  split
  · split
    · rename_i e h
      exact ⟨StoreError.isUnreadable_of_isFailure (tame.commit w e h), .inl rfl⟩
    · exact ⟨trivial, .inr rfl⟩
  · rename_i syncWrites _
    exact Durable.commit_legible tame syncWrites w s.contents

theorem Intact.commit (h : s.Intact) {w : WriteSet} (hw : (w.applyTo s.contents).Intact) :
    Legible (fun _ => True) (s.commit w).1 ∧ (s.commit w).2.Intact := by
  obtain ⟨answer, contents⟩ := commit_legible h.tame w
  refine ⟨answer, ?_⟩
  rw [commit_snd]
  refine ⟨h.tame, ?_⟩
  obtain contents | contents := contents <;> rw [contents]
  · exact h.contents
  · exact hw

end Engine

/-! ## Queries -/

/-- A scan that succeeds meets no fault. -/
theorem View.scan_of_ok {bucket : Bucket} {range : KeyRange} {direction : Direction} {init st : σ}
    {visitor : σ → Entry → Except StoreError (σ × Bool)} {s : Engine}
    (h : (View.scan bucket range direction init visitor : View StoreError σ) s = .ok st) :
    (View.scan bucket range direction init visitor : View StoreError σ)
      { s with faults := .never } = .ok st := by
  unfold View.scan Engine.scan at h ⊢
  cases hf : s.faults.scan bucket range direction with
  | some e => rw [hf] at h; cases h
  | none => rw [hf] at h; exact h

namespace Cursor

/-- A cursor moves to stored entries of its bucket. -/
def Finds (s : Engine) (bucket : Bucket) (r : Option Entry × Cursor) : Prop :=
  r.2.bucket = bucket ∧ ∀ e, r.1 = some e → s.contents.lookup bucket e.1 = some e.2

variable {s : Engine}

theorem step_legible (tame : s.faults.Tame) (cursor : Cursor) (range : KeyRange)
    (direction : Direction) : Legible (Finds s cursor.bucket)
      ((cursor.step range direction : View StoreError _) s) := by
  have hscan : Legible (fun found : Option Entry => ∀ e, found = some e →
      s.contents.lookup cursor.bucket e.1 = some e.2)
      ((View.scan cursor.bucket range direction none fun _ entry => .ok (some entry, false) :
        View StoreError _) s) := by
    refine Engine.scan_legible tame (fun _ _ key value hl => ?_) nofun
    rintro _ ⟨⟩
    exact hl
  refine .view_bind hscan fun found hfound => ?_
  cases found with
  | none => exact ⟨rfl, nofun⟩
  | some e => exact ⟨rfl, hfound⟩

/-- The moves of a cursor. -/
theorem next_legible (tame : s.faults.Tame) (cursor : Cursor) :
    Legible (Finds s cursor.bucket) ((cursor.next : View StoreError _) s) := by
  unfold next
  cases cursor.position <;> exact step_legible tame cursor _ _

theorem prev_legible (tame : s.faults.Tame) (cursor : Cursor) :
    Legible (Finds s cursor.bucket) ((cursor.prev : View StoreError _) s) := by
  unfold prev
  cases cursor.position <;> exact step_legible tame cursor _ _

end Cursor

theorem TxOutput.Storable.unknown : TxOutput.unknown.Storable :=
  ⟨by decide, by decide, nofun, nofun⟩

/-- The transactions of a bucket are stored there. -/
def Contents.StoresTxs (c : Contents) (bucket : Bucket) (txs : List Tx) : Prop :=
  ∀ tx ∈ txs, c.lookup bucket tx.key = some (Cbor.Record.encode tx) ∧ tx.Storable

namespace Database

variable {db : Database}

theorem view_legible {P : α → Prop} {body : View StoreError α} (h : Legible P (body db.engine)) :
    Legible P (db.view body) := by
  unfold view
  split
  · rfl
  · exact h

theorem latestPoint?_legible (h : db.engine.Intact) : Legible (fun _ => True) db.latestPoint? := by
  refine view_legible (.view_bind (Engine.get_legible h.tame false _ _) ?_)
  rintro _ rfl
  cases hl : db.engine.contents.lookup .latestPoint Key.latestPoint with
  | none => exact trivial
  | some bytes =>
    obtain ⟨p, -, rfl⟩ := h.contents _ _ _ hl
    exact .view_bind (.readRecord p.decode_encode) fun _ _ => trivial

/-- An output that is found has lengths below 2^64. -/
theorem txOutput_legible (h : db.engine.Intact) (ref : OutputRef) :
    Legible TxOutput.Storable (db.txOutput ref) := by
  refine view_legible (.view_bind (Engine.get_legible h.tame false _ _) ?_)
  rintro _ rfl
  cases hl : db.engine.contents.lookup .utxos ref.key with
  | none => exact .unknown
  | some bytes =>
    obtain ⟨_, o, storable, -, rfl⟩ := h.contents _ _ _ hl
    have hread := Legible.readRecord (TxOutput.decode_encode storable)
    cases hbytes : Cbor.Record.encode o with
    | nil => exact .unknown
    | cons byte bytes =>
      rw [hbytes] at hread
      exact hread.imp fun _ ho => ho ▸ storable

/-- The first transactions of a bucket are stored there. -/
theorem firstTxs_legible (h : db.engine.Intact) {bucket : Bucket}
    (txs : bucket = .unprocessedTxs ∨ bucket = .processedTxs) (max : Nat) :
    Legible (db.contents.StoresTxs bucket) (db.firstTxs bucket max) := by
  have holds : ∀ key value, db.contents.lookup bucket key = some value →
      ∃ tx : Tx, tx.Storable ∧ key = tx.key ∧ value = Cbor.Record.encode tx := by
    intro key value hl
    have := h.contents bucket key value hl
    obtain rfl | rfl := txs <;> exact this
  unfold firstTxs
  refine view_legible ?_
  by_cases hmax : max = 0
  · rw [if_pos hmax]
    exact nofun
  · rw [if_neg hmax]
    refine .view_bind (P := fun r : Nat × List Tx => db.contents.StoresTxs bucket r.2) ?_ fun r hr => ?_
    · refine Engine.scan_legible h.tame (fun r hr key value hl => ?_) nofun
      obtain ⟨tx, storable, rfl, rfl⟩ := holds key value hl
      refine (Legible.readRecord (Tx.decode_encode storable)).bind ?_
      rintro _ rfl
      exact List.forall_mem_cons.2 ⟨⟨hl, storable⟩, hr⟩
    · exact fun tx htx => hr tx (List.mem_reverse.1 htx)

/-- So are those that are found in spite of faults. -/
theorem firstTxs_ok (intact : db.contents.Intact) {bucket : Bucket}
    (txs : bucket = .unprocessedTxs ∨ bucket = .processedTxs) {max : Nat} {found : List Tx}
    (h : db.firstTxs bucket max = .ok found) : db.contents.StoresTxs bucket found := by
  have without : firstTxs { db with engine := { db.engine with faults := .never } } bucket max =
      .ok found := by
    unfold firstTxs view at h ⊢
    split at h
    · cases h
    · rename_i usable
      rw [if_neg usable]
      by_cases hmax : max = 0
      · rw [if_pos hmax] at h ⊢
        exact h
      · rw [if_neg hmax] at h ⊢
        obtain ⟨r, hscan, hr⟩ := View.bind_eq_ok.1 h
        exact View.bind_eq_ok.2 ⟨r, View.scan_of_ok hscan, hr⟩
  have stored := @firstTxs_legible { db with engine := { db.engine with faults := .never } }
    ⟨.never, intact⟩ bucket txs max
  rw [without] at stored
  exact stored

theorem outputsAt_legible (h : db.engine.Intact) (address : String) (onlyUnused : Bool) :
    Legible (fun _ => True) (db.outputsAt address onlyUnused) := by
  refine (view_legible (P := fun _ => True) ?_).bind fun _ _ => trivial
  refine Engine.scan_legible h.tame (fun found _ key value hl => ?_) trivial
  obtain ⟨ref, o, storable, rfl, rfl⟩ := h.contents _ _ _ hl
  refine (Legible.readRecord (TxOutput.decode_encode storable)).bind ?_
  rintro _ rfl
  rw [Key.toRef_key]
  split <;> exact trivial

theorem takeBlocks_legible (h : db.engine.Intact)
    {move : Cursor → View StoreError (Option Entry × Cursor)}
    (hmove : ∀ cursor, Legible (Cursor.Finds db.engine cursor.bucket) (move cursor db.engine))
    (max : Nat) {r : Option Entry × Cursor} (hr : Cursor.Finds db.engine .confirmedBlocks r) :
    Legible (fun _ => True) (takeBlocks move max r.1 r.2 db.engine) := by
  induction max generalizing r with
  | zero => exact trivial
  | succ max ih =>
    obtain ⟨entry, cursor⟩ := r
    cases entry with
    | none => exact trivial
    | some e =>
      obtain ⟨key, value⟩ := e
      obtain ⟨b, storable, -, rfl⟩ := h.contents _ _ _ (hr.2 _ rfl)
      refine .view_bind (.readRecord (ConfirmedBlock.decode_encode storable)) fun _ _ => ?_
      refine .view_bind (hmove cursor) fun r hr' => ?_
      rw [show cursor.bucket = .confirmedBlocks from hr.1] at hr'
      exact .view_bind (ih hr') fun _ _ => trivial

theorem latestBlocks_legible (h : db.engine.Intact) (max : Nat) :
    Legible (fun _ => True) (db.latestBlocks max) :=
  view_legible (.view_bind (Cursor.step_legible h.tame _ _ _) fun _ hr =>
    takeBlocks_legible h (Cursor.prev_legible h.tame) max hr)

theorem blocksFrom_legible (h : db.engine.Intact) (slot : UInt64) (max : Nat) :
    Legible (fun _ => True) (db.blocksFrom slot max) :=
  view_legible (.view_bind (Cursor.step_legible h.tame _ _ _) fun _ hr =>
    takeBlocks_legible h (Cursor.next_legible h.tame) max hr)

end Database

/-! ## Writing scopes -/

/-- The scope is legible, and what is pending after it leaves contents that can be read. -/
def Update.Tidy (body : Update StoreError α) : Prop :=
  ∀ (s : Engine) (w : WriteSet), s.faults.Tame → (w.applyTo s.contents).Intact →
    Legible (fun r => (r.2.applyTo s.contents).Intact) (body s w)

namespace Update

theorem get_legible {s : Engine} (tame : s.faults.Tame) (w : WriteSet) (bucket : Bucket)
    (key : Bytes) : Legible (· = ((w.applyTo s.contents).lookup bucket key, w))
      ((Update.get bucket key : Update StoreError _) s w) := by
  rw [WriteSet.lookup_applyTo]
  unfold Update.get
  cases w.lookup bucket key with
  | value bytes => exact rfl
  | deleted => exact rfl
  | untouched => exact (Engine.get_legible tame true bucket key).bind fun _ h => h ▸ rfl

namespace Tidy

theorem pure (a : α) : Tidy (pure a) := fun _ _ _ intact => intact

theorem bind {body : Update StoreError α} {f : α → Update StoreError β} (h : Tidy body)
    (h' : ∀ a, Tidy (f a)) : Tidy (body >>= f) := fun s w tame intact =>
  Legible.bind (h s w tame intact) fun r hr => h' r.1 s r.2 tame hr

theorem forM {f : α → Update StoreError Unit} {as : List α} (h : ∀ a ∈ as, Tidy (f a)) :
    Tidy (as.forM f) := by
  induction as with
  | nil => exact pure ()
  | cons a as ih =>
    exact (h a List.mem_cons_self).bind fun _ => ih fun b hb => h b (List.mem_cons_of_mem _ hb)

theorem write {x : Write} (hx : x.Holds) : Tidy (Update.write x) := by
  intro s w _ intact
  change ((w.add x).applyTo s.contents).Intact
  rw [WriteSet.applyTo_add]
  exact intact.perform hx

end Tidy

end Update

namespace BatchOp

/-- The records that a change adds have strings and lists of lengths below 2^64. -/
def Storable : BatchOp → Prop
  | addOutputs outputs => ∀ o ∈ outputs, o.output.Storable
  | addBlock block => block.Storable
  | addTxs txs => ∀ tx ∈ txs, tx.Storable
  | setLatestPoint _ | removeOutputs _ _ | deleteAllOutputs => True

/-- A stored output can be read, so it can be marked. -/
theorem markUsed_tidy (ref : OutputRef) : Update.Tidy (markUsed ref) := by
  intro s w tame intact
  refine Legible.bind (Update.get_legible tame w .utxos ref.key) ?_
  rintro _ rfl
  cases hl : (w.applyTo s.contents).lookup .utxos ref.key with
  | none => exact intact
  | some bytes =>
    obtain ⟨_, o, storable, -, rfl⟩ := intact _ _ _ hl
    have hread : Legible (· = (o, w))
        ((Update.record (Cbor.Record.encode o) : Update StoreError TxOutput) s w) :=
      (Legible.readRecord (TxOutput.decode_encode storable)).bind fun _ h => h ▸ rfl
    refine Legible.bind hread ?_
    rintro _ rfl
    exact Update.Tidy.write (x := .put .utxos ref.key _) ⟨ref, _, storable.used, rfl, rfl⟩ s w tame
      intact

theorem apply_tidy {op : BatchOp} (h : op.Storable) : Update.Tidy op.apply := by
  cases op with
  | setLatestPoint p => exact .write (x := .put ..) ⟨p, rfl, rfl⟩
  | addBlock b => exact .write (x := .put ..) ⟨b, h, rfl, rfl⟩
  | deleteAllOutputs => exact .write (x := .clear _) trivial
  | addOutputs outputs =>
    exact .forM fun o ho => .write (x := .put ..) ⟨o.ref, o.output, h o ho, rfl, rfl⟩
  | addTxs txs => exact .forM fun tx htx => .write (x := .put ..) ⟨tx, h tx htx, rfl, rfl⟩
  | removeOutputs refs soft =>
    refine .forM fun ref _ => ?_
    cases soft with
    | true => exact markUsed_tidy ref
    | false => exact .write (x := .delete ..) trivial

end BatchOp

namespace Database

variable {db : Database}

/-- A tidy scope is legible, and whatever comes of it, the entries can be read afterwards. -/
theorem update_intact {body : Update StoreError α} (h : db.engine.Intact)
    (tidy : Update.Tidy body) :
    Legible (fun _ => True) (db.update body).1 ∧ (db.update body).2.engine.Intact := by
  have hbody := tidy db.engine .empty h.tame (by rw [WriteSet.applyTo_empty]; exact h.contents)
  unfold update
  split
  · exact ⟨rfl, h⟩
  · split
    · rename_i e hr
      rw [hr] at hbody
      exact ⟨hbody, h⟩
    · rename_i a writes hr
      rw [hr] at hbody
      split
      · exact ⟨trivial, h⟩
      · obtain ⟨answer, intact⟩ := h.commit hbody
        split
        · rename_i engine hc
          rw [hc] at intact
          exact ⟨trivial, intact⟩
        · rename_i e engine hc
          rw [hc] at answer intact
          exact ⟨answer, intact⟩

theorem execute_intact (h : db.engine.Intact) {w : BatchWriter} (storable : ∀ op ∈ w.ops, op.Storable) :
    Legible (fun _ => True) (w.execute db).1 ∧ (w.execute db).2.2.engine.Intact := by
  unfold BatchWriter.execute
  split
  · exact ⟨trivial, h⟩
  · exact update_intact h (.forM fun op hop => BatchOp.apply_tidy (storable op hop))

theorem markProcessed_intact (h : db.engine.Intact) {txs : List Tx}
    (storable : ∀ tx ∈ txs, tx.Storable) :
    Legible (fun _ => True) (db.markProcessed txs).1 ∧
      (db.markProcessed txs).2.engine.Intact := by
  unfold markProcessed
  split
  · exact ⟨trivial, h⟩
  · refine update_intact h (.forM fun tx htx => ?_)
    exact .bind (.write (x := .delete ..) trivial) fun _ =>
      .write (x := .put ..) ⟨tx, storable tx htx, rfl, rfl⟩

theorem reopen_intact (h : db.engine.Intact) (clear : Bool) : (db.reopen clear).engine.Intact := by
  obtain ⟨⟨medium, contents, faults⟩, isPoisoned⟩ := db
  cases medium with
  | memory => exact ⟨h.tame, .empty⟩
  | durable syncWrites =>
    cases clear with
    | true => exact ⟨h.tame, .empty⟩
    | false => exact h

end Database

end ChainIndex
