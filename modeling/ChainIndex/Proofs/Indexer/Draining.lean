import ChainIndex.Proofs.Cbor.Sizes
import ChainIndex.Proofs.Indexer.Undisturbed

/-!
# Reading and marking until none is left

* `Database.Drains k`: the first `k` unprocessed transactions are read and marked, over and over, until none
  is read. A run is determined by what it starts from (`Database.Drains.unique`).
* `Filed.foldl_moved`: marking the first transactions leaves the others, each under its own key. It is what
  one round keeps, and as a round that reads something leaves fewer, there is a last one
  (`Database.exists_drains`).
* `drain_exact`: what a run hands out and what it leaves.
-/

namespace ChainIndex

/-- The first entry erased. -/
theorem KeyMap.entries_erase_first {α : Type} {m : KeyMap α} {e : Bytes × α} {rest : List (Bytes × α)}
    (h : m.entries = e :: rest) : (m.erase e.1).entries = rest := by
  have sorted := m.sorted
  rw [h] at sorted
  obtain ⟨first, -⟩ := List.pairwise_cons.1 sorted
  have others : rest.filter (fun e' => e'.1 != e.1) = rest := List.filter_eq_self.2 fun e' he' =>
    bne_iff_ne.2 fun same => List.lt_irrefl _ (same ▸ first e' he')
  change m.entries.filter (fun e' => e'.1 != e.1) = rest
  rw [h, List.filter_cons_of_neg (by simp), others]

namespace Filed

variable {tx : Tx} {txs : List Tx} {c : Contents}

theorem moved (h : Filed .unprocessedTxs Tx.key (tx :: txs) c) :
    Filed .unprocessedTxs Tx.key txs (c.moved tx) := by
  unfold Filed at h
  cases entries : (c.get .unprocessedTxs).entries with
  | nil =>
    rw [entries] at h
    cases h
  | cons e rest =>
    rw [entries] at h
    obtain ⟨⟨own, -⟩, later⟩ := List.forall₂_cons.1 h
    rw [Filed, Contents.moved_unprocessedTxs, ← own, KeyMap.entries_erase_first entries]
    exact later

theorem foldl_moved {front : List Tx} (h : Filed .unprocessedTxs Tx.key (front ++ txs) c) :
    Filed .unprocessedTxs Tx.key txs (front.foldl Contents.moved c) := by
  induction front generalizing c with
  | nil => exact h
  | cons tx front ih => exact ih h.moved

theorem eq_empty (h : Filed .unprocessedTxs Tx.key [] c) : c.get .unprocessedTxs = ∅ :=
  KeyMap.eq_of_entries (List.forall₂_nil_right_iff.1 h)

end Filed

namespace Database

/-- The first `k` unprocessed transactions are read and marked, over and over, until none is read. The lists are
those that were read, and the last database the one that is left. -/
inductive Drains (k : Nat) : Database → List (List Tx) → Database → Prop where
  | done {db : Database} (read : db.unprocessedTxs k = .ok []) : Drains k db [] db
  | round {db next last : Database} {txs : List Tx} {batches : List (List Tx)}
      (read : db.unprocessedTxs k = .ok txs) (some : txs ≠ [])
      (marked : db.markProcessed txs = (.ok (), next)) (rest : Drains k next batches last) :
      Drains k db (txs :: batches) last

/-- A run is determined by what it starts from. -/
theorem Drains.unique {k : Nat} {db last last' : Database} {batches batches' : List (List Tx)}
    (h : Drains k db batches last) (h' : Drains k db batches' last') : batches = batches' ∧ last = last' := by
  induction h generalizing batches' last' with
  | done read =>
    cases h' with
    | done => exact ⟨rfl, rfl⟩
    | round read' some => exact absurd (Except.ok.inj (read'.symm.trans read)) some
  | round read some marked _ ih =>
    cases h' with
    | done read' => exact absurd (Except.ok.inj (read.symm.trans read')) some
    | round read' some' marked' rest' =>
      obtain rfl := Except.ok.inj (read.symm.trans read')
      obtain rfl := (Prod.mk.inj (marked.symm.trans marked')).2
      obtain ⟨rfl, rfl⟩ := ih rest'
      exact ⟨rfl, rfl⟩

/-- Over transactions under their own keys there is a run, which hands out each of them. -/
theorem exists_drains {k : Nat} (positive : 0 < k) {db : Database} (sound : db.Sound) {txs : List Tx}
    (filed : Filed .unprocessedTxs Tx.key txs db.contents) :
    ∃ batches, Drains k db batches (db.withContents (txs.foldl Contents.moved db.contents)) ∧
      batches.flatten = txs ∧ ∀ batch ∈ batches, batch ≠ [] ∧ batch.length ≤ k := by
  -- on the number of transactions: a round reads at least one of them
  induction hn : txs.length using Nat.strong_induction_on generalizing db txs with
  | _ n ih =>
    have read : db.unprocessedTxs k = .ok (txs.take k) := filed.firstTxs sound k
    by_cases none : txs = []
    · subst none
      rw [List.take_nil] at read
      exact ⟨[], .done read, rfl, nofun⟩
    · have some : txs.take k ≠ [] := by simp [none, Nat.ne_of_gt positive]
      have marked := sound.markProcessed_eq (txs.take k)
      have whole := List.take_append_drop k txs
      have left := (whole.symm ▸ filed).foldl_moved
      have fewer : (txs.drop k).length < n := by
        have := List.length_pos_iff.2 none
        rw [List.length_drop]
        omega
      obtain ⟨batches, rest, handed, sizes⟩ := ih _ fewer (sound.withContents _) left rfl
      rw [contents_withContents, ← List.foldl_append, whole] at rest
      refine ⟨txs.take k :: batches, .round read some marked rest, ?_, ?_⟩
      · rw [List.flatten_cons, handed, whole]
      · exact List.forall_mem_cons.2 ⟨⟨some, List.length_take_le _ _⟩, sizes⟩

end Database

/-- Transactions with different keys that can be stored are found under their keys after they were marked. -/
theorem Contents.holds_foldl_moved {c : Contents} {txs : List Tx} (distinct : (txs.map Tx.key).Nodup)
    {tx : Tx} (mem : tx ∈ txs) (storable : tx.Storable) :
    (txs.foldl moved c).Holds .processedTxs Tx.key tx := by
  refine ⟨Cbor.Record.encode tx, ?_, Tx.decode_encode storable⟩
  rw [lookup, foldl_moved_processedTxs, KeyMap.get?_insertTxs_of_mem distinct mem]

/-- Take any sound database whose unprocessed transactions sit under their own keys, each in fewer than 2^64
octets, as in any memory. If as many as `k` of them are read and marked over and over, with `k` at least one, then
at some point none is left to read. What was read is each unprocessed transaction once, in the order of the chain,
in parts of one to `k`. None is unprocessed any more, each can be read as it was among the processed ones, and all
else is stored as before. -/
theorem drain_exact {db : Database} (sound : db.Sound) {k : Nat} (positive : 0 < k)
    (own : db.contents.UnderOwnKeys .unprocessedTxs Tx.key)
    (short : ∀ key value, db.contents.lookup .unprocessedTxs key = some value → value.length < UInt64.size) :
    ∃ batches last, db.Drains k batches last ∧
      (∀ batches' last', db.Drains k batches' last' → batches' = batches ∧ last' = last) ∧
      db.contents.Lists .unprocessedTxs Tx.key Tx.Earlier batches.flatten ∧
      (∀ batch ∈ batches, 0 < batch.length ∧ batch.length ≤ k) ∧
      last = db.withContents last.contents ∧
      last.contents.get .unprocessedTxs = ∅ ∧
      (∀ tx ∈ batches.flatten, last.contents.Holds .processedTxs Tx.key tx) ∧
      (∀ key ∉ batches.flatten.map Tx.key,
        last.contents.lookup .processedTxs key = db.contents.lookup .processedTxs key) ∧
      (∀ bucket, bucket ≠ .unprocessedTxs → bucket ≠ .processedTxs →
        last.contents.get bucket = db.contents.get bucket) := by
  obtain ⟨txs, filed⟩ := Filed.exists_iff.2 own
  obtain ⟨batches, drains, rfl, sizes⟩ := Database.exists_drains positive sound filed
  have ne {a b : Tx} (lt : a.key < b.key) : a.key ≠ b.key := fun same => List.lt_irrefl _ (same ▸ lt)
  have distinct : (batches.flatten.map Tx.key).Nodup := List.pairwise_map.2 (filed.ascending.imp ne)
  have storable : ∀ tx ∈ batches.flatten, tx.Storable := fun tx mem => by
    obtain ⟨value, found, read⟩ := filed.mem_iff.1 mem
    exact Tx.storable_of_decode (short _ value found) read
  have left : Filed .unprocessedTxs Tx.key [] (batches.flatten.foldl Contents.moved db.contents) :=
    Filed.foldl_moved (by rwa [List.append_nil])
  refine ⟨batches, _, drains, fun batches' last' drains' => drains'.unique drains,
    ⟨filed.earlier, fun _ => filed.mem_iff⟩,
    fun batch mem => ⟨List.length_pos_iff.2 (sizes batch mem).1, (sizes batch mem).2⟩, rfl, left.eq_empty,
    fun tx mem => Contents.holds_foldl_moved distinct mem (storable tx mem), fun key other => ?_,
    fun bucket unprocessed processed => Contents.get_foldl_moved_of_ne unprocessed processed _⟩
  rw [Contents.lookup, Database.contents_withContents, Contents.foldl_moved_processedTxs,
    KeyMap.get?_insertTxs_of_notMem other]
  rfl

open Fixture in
/-- The two transactions come one by one, the one with the lower position first. -/
theorem drain_shuffled :
    let db : Database := { engine := ⟨.memory, shuffled, .never⟩ }
    db.Sound ∧ 0 < 1 ∧ shuffled.UnderOwnKeys .unprocessedTxs Tx.key ∧
    (∀ key value, shuffled.lookup .unprocessedTxs key = some value → value.length < UInt64.size) ∧
    ∃ batches last, db.Drains 1 batches last ∧ batches.flatten = [emptyTx 255, emptyTx 256] ∧
      (∀ batch ∈ batches, 0 < batch.length ∧ batch.length ≤ 1) ∧
      last.contents.get .unprocessedTxs = ∅ ∧
      last.contents.Holds .processedTxs Tx.key (emptyTx 255) ∧
      last.contents.Holds .processedTxs Tx.key (emptyTx 256) := by
  intro db
  have sound : db.Sound := ⟨rfl, rfl⟩
  have filed := filed_txs_shuffled
  have own := Filed.exists_iff.1 ⟨_, filed⟩
  have short : ∀ key value, shuffled.lookup .unprocessedTxs key = some value →
      value.length < UInt64.size := by
    intro key value found
    have entries : (shuffled.get .unprocessedTxs).entries =
        [((emptyTx 255).key, Cbor.Record.encode (emptyTx 255)),
          ((emptyTx 256).key, Cbor.Record.encode (emptyTx 256))] := rfl
    have entry := KeyMap.get?_eq_some_iff.1 found
    rw [entries] at entry
    obtain eq | eq := List.mem_pair.1 entry <;> obtain ⟨-, rfl⟩ := Prod.mk.inj eq <;> decide
  obtain ⟨batches, last, drains, -, listed, sizes, -, none, moved, -⟩ :=
    drain_exact sound Nat.one_pos own short
  have handed := listed.unique ⟨filed.earlier, fun _ => filed.mem_iff⟩
  rw [handed] at moved
  exact ⟨sound, Nat.one_pos, own, short, batches, last, drains, handed, sizes, none,
    moved _ List.mem_cons_self, moved _ (List.mem_cons_of_mem _ List.mem_cons_self)⟩

end ChainIndex
