import Mathlib.Data.List.Nodup
import ChainIndex.Proofs.Indexer.Written
import ChainIndex.Proofs.Storage.Intact
import ChainIndex.Proofs.Storage.Waits

/-!
# Marked transactions

* `Contents.moved`: the contents after one transaction was marked as processed. Marking that succeeds does
  this to each of its transactions (`Database.markProcessed_ok`), and marking that fails leaves the
  store if commits are atomic.
* `Database.markedInVain`: the transactions of a call for marking that fails and moves them nevertheless, since it
  waited for the disk in vain (`Database.contents_markProcessed`).
* `Contents.Sorts txs marked`: of some transactions with different keys, those that are marked are processed
  and the others are not; nothing else is in either bucket. Marking some of them sorts them anew
  (`Contents.Sorts.foldl_moved`), and so does recording more (`Contents.Sorts.record`).
-/

namespace ChainIndex

/-- A transaction with different keys from the others is found under its key. -/
theorem KeyMap.get?_insertTxs_empty {txs : List Tx} (distinct : (txs.map Tx.key).Nodup)
    {key value : Bytes} : (KeyMap.empty.insertTxs txs).get? key = some value ↔
      ∃ tx ∈ txs, tx.key = key ∧ Cbor.Record.encode tx = value := by
  constructor
  · intro h
    by_cases mem : key ∈ txs.map Tx.key
    · obtain ⟨tx, htx, rfl⟩ := List.mem_map.1 mem
      rw [get?_insertTxs_of_mem distinct htx] at h
      exact ⟨tx, htx, rfl, Option.some.inj h⟩
    · rw [get?_insertTxs_of_notMem mem] at h
      cases h
  · rintro ⟨tx, htx, rfl, rfl⟩
    exact get?_insertTxs_of_mem distinct htx

namespace Contents

/-- The contents after a transaction was marked as processed. -/
def moved (c : Contents) (tx : Tx) : Contents :=
  (c.perform (.delete .unprocessedTxs tx.key)).perform
    (.put .processedTxs tx.key (Cbor.Record.encode tx))

variable {c : Contents} {tx : Tx}

theorem moved_unprocessedTxs (c : Contents) (tx : Tx) :
    (c.moved tx).get .unprocessedTxs = (c.get .unprocessedTxs).erase tx.key := rfl

theorem moved_processedTxs (c : Contents) (tx : Tx) :
    (c.moved tx).get .processedTxs =
      (c.get .processedTxs).insert tx.key (Cbor.Record.encode tx) := rfl

theorem get_moved_of_ne {b : Bucket} (unprocessed : b ≠ .unprocessedTxs) (processed : b ≠ .processedTxs) :
    (c.moved tx).get b = c.get b := by
  rw [moved, get_perform_of_ne _ (Ne.symm processed), get_perform_of_ne _ (Ne.symm unprocessed)]

theorem get_foldl_moved_of_ne {b : Bucket} (unprocessed : b ≠ .unprocessedTxs)
    (processed : b ≠ .processedTxs) (txs : List Tx) : (txs.foldl moved c).get b = c.get b := by
  induction txs generalizing c with
  | nil => rfl
  | cons tx txs ih => exact ih.trans (get_moved_of_ne unprocessed processed)

theorem foldl_moved_processedTxs (c : Contents) (txs : List Tx) :
    (txs.foldl moved c).get .processedTxs = (c.get .processedTxs).insertTxs txs := by
  induction txs generalizing c with
  | nil => rfl
  | cons tx txs ih => exact ih (c.moved tx)

theorem lookup_foldl_moved_unprocessedTxs (c : Contents) (txs : List Tx) (key : Bytes) :
    (txs.foldl moved c).lookup .unprocessedTxs key =
      if key ∈ txs.map Tx.key then none else c.lookup .unprocessedTxs key := by
  induction txs generalizing c with
  | nil => rfl
  | cons tx txs ih =>
    rw [List.foldl_cons, ih, lookup, moved_unprocessedTxs, KeyMap.get?_erase]
    by_cases same : key = tx.key
    · simp [same]
    · simp [same]
      rfl

theorem Intact.moved (h : c.Intact) (storable : tx.Storable) : (c.moved tx).Intact :=
  (h.perform (x := .delete ..) trivial).perform (x := .put ..) ⟨tx, storable, rfl, rfl⟩

theorem Intact.foldl_moved (h : c.Intact) {txs : List Tx} (storable : ∀ tx ∈ txs, tx.Storable) :
    (txs.foldl Contents.moved c).Intact := by
  induction txs generalizing c with
  | nil => exact h
  | cons tx txs ih =>
    obtain ⟨htx, htxs⟩ := List.forall_mem_cons.1 storable
    exact ih (h.moved htx) htxs

end Contents

namespace Database

variable {db db' : Database} {txs : List Tx}

/-- Marking that succeeds has moved each of its transactions, and changed nothing else. -/
theorem markProcessed_ok (h : db.markProcessed txs = (.ok (), db')) :
    db'.contents = txs.foldl Contents.moved db.contents ∧
      db' = { db with engine := { db.engine with contents := db'.contents } } := by
  unfold markProcessed at h
  split at h
  · rename_i hempty
    cases h
    rw [List.isEmpty_iff.1 hempty]
    exact ⟨rfl, rfl⟩
  · obtain ⟨direct, hdb⟩ := update_ok
      (.forM (fun tx => .bind (.write (.delete .unprocessedTxs tx.key)) fun _ =>
        .write (.put .processedTxs tx.key (Cbor.Record.encode tx))) txs) h
    refine ⟨?_, hdb⟩
    refine Direct.forM_ok (fun d c => c = d) Contents.moved ?_ db.contents rfl direct
    rintro tx - d _ e rfl hstep
    cases hstep
    rfl

/-- Marking moves its transactions if it succeeds where the disk is reached, and else it leaves the database. -/
theorem markProcessed_eq (db : Database) (txs : List Tx) : (db.markProcessed txs).2 =
    if (db.synced.markProcessed txs).1.isOk then db.withContents (txs.foldl Contents.moved db.contents)
    else db := by
  have ends := db.markProcessed_ends txs
  rcases hs : db.synced.markProcessed txs with ⟨_ | ⟨⟩, after⟩
  · rw [hs] at ends
    generalize db.markProcessed txs = real at ends
    cases ends
    rfl
  · rw [hs] at ends
    have moved : after.contents = txs.foldl Contents.moved db.contents := (markProcessed_ok hs).1
    simp only [left?, moved] at ends
    generalize db.markProcessed txs = real at ends
    cases ends <;> rfl

/-- The transactions of a call for marking, if it succeeds. -/
def marked (db : Database) (txs : List Tx) : List Tx := if (db.markProcessed txs).1.isOk then txs else []

/-- The transactions of a call for marking that fails, but only by waiting for the disk in vain. -/
def markedInVain (db : Database) (txs : List Tx) : List Tx :=
  if (db.markProcessed txs).1.isOk then [] else if (db.synced.markProcessed txs).1.isOk then txs else []

theorem mem_of_marked (db : Database) {tx : Tx} (h : tx ∈ db.marked txs ++ db.markedInVain txs) :
    tx ∈ txs := by
  rcases List.mem_append.1 h with h | h
  · rw [marked] at h
    split at h
    · exact h
    · cases h
  · rw [markedInVain] at h
    split at h
    · cases h
    · split at h
      · exact h
      · cases h

/-- These are the transactions that a call moves, and nothing else changes. -/
theorem contents_markProcessed (db : Database) (txs : List Tx) : (db.markProcessed txs).2.contents =
    (db.marked txs ++ db.markedInVain txs).foldl Contents.moved db.contents := by
  have ends := db.markProcessed_ends txs
  rw [markProcessed_eq, marked, markedInVain]
  by_cases ok : (db.markProcessed txs).1.isOk = true
  · rw [if_pos (ends.isOk ok), if_pos ok, if_pos ok, List.append_nil]
    rfl
  · rw [if_neg ok, if_neg ok, List.nil_append]
    split <;> rfl

/-- Where the disk is reached, no call is in vain. -/
theorem markedInVain_eq_nil (disk : db.engine.ReachesDisk) (txs : List Tx) : db.markedInVain txs = [] := by
  rw [markedInVain, (db.markProcessed_ends txs).isOk_eq disk]
  by_cases ok : (db.synced.markProcessed txs).1.isOk = true
  · rw [if_pos ok]
  · rw [if_neg ok, if_neg ok]

/-- Marking that fails leaves the database, if commits are atomic. -/
theorem markProcessed_error {e : StoreError} (atomic : db.engine.CommitsAtomically)
    (h : db.markProcessed txs = (.error e, db')) : db' = db := by
  unfold markProcessed at h
  split at h
  · cases h
  · exact update_error atomic h

end Database

namespace Contents

/-- The transactions and no others are stored, those that are marked as processed and the others as
unprocessed. -/
structure Sorts (txs marked : List Tx) (c : Contents) : Prop where
  distinct : (txs.map Tx.key).Nodup
  unprocessed : c.get .unprocessedTxs = KeyMap.empty.insertTxs (txs.filter (· ∉ marked))
  processed : c.get .processedTxs = KeyMap.empty.insertTxs (txs.filter (· ∈ marked))

namespace Sorts

variable {txs marked : List Tx} {c c' : Contents}

theorem empty : Sorts [] [] .empty := ⟨.nil, rfl, rfl⟩

theorem distinct_filter (h : Sorts txs marked c) (p : Tx → Bool) :
    ((txs.filter p).map Tx.key).Nodup :=
  h.distinct.sublist (List.filter_sublist.map _)

theorem lookup_unprocessed (h : Sorts txs marked c) {key value : Bytes} :
    c.lookup .unprocessedTxs key = some value ↔
      ∃ tx ∈ txs, tx ∉ marked ∧ tx.key = key ∧ Cbor.Record.encode tx = value := by
  rw [lookup, h.unprocessed, KeyMap.get?_insertTxs_empty (h.distinct_filter _)]
  simp [and_assoc]

theorem lookup_processed (h : Sorts txs marked c) {key value : Bytes} :
    c.lookup .processedTxs key = some value ↔
      ∃ tx ∈ txs, tx ∈ marked ∧ tx.key = key ∧ Cbor.Record.encode tx = value := by
  rw [lookup, h.processed, KeyMap.get?_insertTxs_empty (h.distinct_filter _)]
  simp [and_assoc]

/-- Transactions with the same key are the same. -/
theorem eq_of_key_eq (h : Sorts txs marked c) {tx tx' : Tx} (htx : tx ∈ txs) (htx' : tx' ∈ txs)
    (key : tx.key = tx'.key) : tx = tx' := List.inj_on_of_nodup_map h.distinct htx htx' key

/-- Marking one of the transactions, marked or not, sorts them anew. -/
theorem moved (h : Sorts txs marked c) {tx : Tx} (htx : tx ∈ txs) :
    Sorts txs (marked ++ [tx]) (c.moved tx) where
  distinct := h.distinct
  unprocessed := by
    refine KeyMap.ext_get? fun key => Option.ext fun value => ?_
    rw [moved_unprocessedTxs, KeyMap.get?_erase, KeyMap.get?_insertTxs_empty (h.distinct_filter _),
      Option.ite_none_left_eq_some, h.unprocessed, KeyMap.get?_insertTxs_empty (h.distinct_filter _)]
    constructor
    · rintro ⟨other, tx', htx', rfl, rfl⟩
      have ne : tx' ≠ tx := fun same => other (congrArg Tx.key same)
      exact ⟨tx', by simpa [ne] using htx', rfl, rfl⟩
    · rintro ⟨tx', htx', rfl, rfl⟩
      obtain ⟨mem, unmarked, ne⟩ : tx' ∈ txs ∧ tx' ∉ marked ∧ tx' ≠ tx := by simpa using htx'
      exact ⟨fun same => ne (h.eq_of_key_eq mem htx same), tx', by simpa using ⟨mem, unmarked⟩, rfl, rfl⟩
  processed := by
    refine KeyMap.ext_get? fun key => Option.ext fun value => ?_
    rw [moved_processedTxs, KeyMap.get?_insert, KeyMap.get?_insertTxs_empty (h.distinct_filter _),
      h.processed]
    by_cases same : key = tx.key
    · rw [if_pos same]
      constructor
      · rintro ⟨⟩
        exact ⟨tx, by simpa using htx, same.symm, rfl⟩
      · rintro ⟨tx', htx', hkey, rfl⟩
        rw [h.eq_of_key_eq htx (List.mem_filter.1 htx').1 (same.symm.trans hkey.symm)]
    · rw [if_neg same, KeyMap.get?_insertTxs_empty (h.distinct_filter _)]
      refine exists_congr fun tx' => and_congr_left fun hkey => ?_
      have ne : tx' ≠ tx := fun eq => same (hkey.1.symm.trans (congrArg Tx.key eq))
      simp [ne]

/-- It matters only which ones are marked. -/
theorem congr {marked' : List Tx} (h : Sorts txs marked c) (same : ∀ tx, tx ∈ marked ↔ tx ∈ marked') :
    Sorts txs marked' c := by
  obtain ⟨distinct, unprocessed, processed⟩ := h
  simp only [same] at unprocessed processed
  exact ⟨distinct, unprocessed, processed⟩

theorem foldl_moved (h : Sorts txs marked c) {more : List Tx} (known : ∀ tx ∈ more, tx ∈ txs) :
    Sorts txs (marked ++ more) (more.foldl Contents.moved c) := by
  induction more generalizing marked c with
  | nil => rwa [List.append_nil]
  | cons tx rest ih =>
    obtain ⟨htx, hrest⟩ := List.forall_mem_cons.1 known
    rw [List.append_cons]
    exact ih (h.moved htx) hrest

/-- Recording transactions of which nothing is known sorts them with the others. -/
theorem record (h : Sorts txs marked c) {conf : Confirmation} (written : conf.Written c c')
    (distinct : ((txs ++ conf.txs).map Tx.key).Nodup) (unmarked : ∀ tx ∈ conf.txs, tx ∉ marked) :
    Sorts (txs ++ conf.txs) marked c' where
  distinct := distinct
  unprocessed := by
    have all : conf.txs.filter (· ∉ marked) = conf.txs :=
      List.filter_eq_self.2 fun tx htx => decide_eq_true (unmarked tx htx)
    rw [written.unprocessedTxs, h.unprocessed, ← KeyMap.insertTxs_append, List.filter_append, all]
  processed := by
    have none : conf.txs.filter (· ∈ marked) = [] :=
      List.filter_eq_nil_iff.2 fun tx htx => by simpa using unmarked tx htx
    rw [written.processedTxs, h.processed, List.filter_append, none, List.append_nil]

end Sorts

end Contents

end ChainIndex
