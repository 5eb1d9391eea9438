import ChainIndex.Proofs.Indexer.Marked

/-!
# Where the entries of a store come from

* `Cell`: what a key of a bucket holds. `Cell.Of`: the cells that a confirmation brings.
* `Cell.ComesFrom`: a cell was there before, or a confirmation has brought it; since then its output may have been
  marked as used, or its transaction as processed.
* `Contents.MadeOf`: contents all of whose cells come from given ones and from given confirmations. The changes of a
  confirmation make such contents (`Confirmation.madeOf`), and so does marking (`Database.madeOf_markProcessed`).
-/

namespace ChainIndex

/-- What a key of a bucket holds. -/
structure Cell where
  bucket : Bucket
  key : Bytes
  value : Bytes

/-- The cells that a confirmation brings. -/
inductive Cell.Of (conf : Confirmation) : Cell → Prop
  | block : Of conf ⟨.confirmedBlocks, conf.block.key, Cbor.Record.encode conf.block⟩
  | latestPoint : Of conf ⟨.latestPoint, Key.latestPoint, Cbor.Record.encode conf.block.point⟩
  | tx (tx : Tx) (mem : tx ∈ conf.txs) : Of conf ⟨.unprocessedTxs, tx.key, Cbor.Record.encode tx⟩
  | output (o : ReferencedOutput) (mem : o ∈ conf.saved) :
      Of conf ⟨.utxos, o.ref.key, Cbor.Record.encode o.output⟩

/-- A cell was there before, or one of the confirmations has brought it. Since then its output may have been
marked as used, or its transaction as processed. -/
inductive Cell.ComesFrom (before : Contents) (confs : List Confirmation) : Cell → Prop
  | stored {bucket : Bucket} {key value : Bytes} (h : before.lookup bucket key = some value) :
      ComesFrom before confs ⟨bucket, key, value⟩
  | brought {cell : Cell} (conf : Confirmation) (mem : conf ∈ confs) (h : cell.Of conf) :
      ComesFrom before confs cell
  | used {key bytes : Bytes} {output : TxOutput} (h : ComesFrom before confs ⟨.utxos, key, bytes⟩)
      (read : Cbor.Record.decode bytes = .ok output) :
      ComesFrom before confs ⟨.utxos, key, Cbor.Record.encode { output with isUsed := true }⟩
  | processed {key value : Bytes} (h : ComesFrom before confs ⟨.unprocessedTxs, key, value⟩) :
      ComesFrom before confs ⟨.processedTxs, key, value⟩

/-- All that is stored comes from the contents before and from the confirmations. -/
def Contents.MadeOf (before : Contents) (confs : List Confirmation) (after : Contents) : Prop :=
  ∀ bucket key value, after.lookup bucket key = some value →
    Cell.ComesFrom before confs ⟨bucket, key, value⟩

/-- What comes from contents comes from what they come from. -/
theorem Cell.ComesFrom.trans {before middle : Contents} {confs later : List Confirmation} {cell : Cell}
    (h : ComesFrom middle later cell) (made : before.MadeOf confs middle) :
    ComesFrom before (confs ++ later) cell := by
  have widen : ∀ {cell}, ComesFrom before confs cell → ComesFrom before (confs ++ later) cell := by
    intro cell h
    induction h with
    | stored h => exact .stored h
    | brought conf mem h => exact .brought conf (List.mem_append_left _ mem) h
    | used _ read ih => exact .used ih read
    | processed _ ih => exact .processed ih
  induction h with
  | stored h => exact widen (made _ _ _ h)
  | brought conf mem h => exact .brought conf (List.mem_append_right _ mem) h
  | used _ read ih => exact .used ih read
  | processed _ ih => exact .processed ih

namespace Contents

variable {before c c' : Contents} {confs later : List Confirmation}

theorem MadeOf.refl (c : Contents) : c.MadeOf [] c := fun _ _ _ h => .stored h

theorem MadeOf.trans (h : before.MadeOf confs c) (h' : c.MadeOf later c') :
    before.MadeOf (confs ++ later) c' := fun bucket key value found => (h' bucket key value found).trans h

theorem MadeOf.put (h : before.MadeOf confs c) {bucket : Bucket} {key value : Bytes}
    (comes : Cell.ComesFrom before confs ⟨bucket, key, value⟩) :
    before.MadeOf confs (c.perform (.put bucket key value)) := by
  intro b k v found
  rw [lookup_perform, Write.value?] at found
  split at found
  · rename_i same
    obtain ⟨rfl, rfl⟩ := same
    obtain rfl := Option.some.inj found
    exact comes
  · exact h b k v found

theorem MadeOf.delete (h : before.MadeOf confs c) (bucket : Bucket) (key : Bytes) :
    before.MadeOf confs (c.perform (.delete bucket key)) := by
  intro b k v found
  rw [lookup_perform, Write.value?] at found
  split at found
  · cases found
  · exact h b k v found

/-- Marking as used brings nothing. -/
theorem MadeOf.markUsed (h : before.MadeOf confs c) {ref : OutputRef}
    (hd : (BatchOp.markUsedDirect ref : Direct StoreError Unit) c = .ok ((), c')) :
    before.MadeOf confs c' := by
  obtain ⟨stored, c₁, found, rest⟩ := Direct.bind_eq_ok.1 hd
  cases found
  cases hstored : c.lookup .utxos ref.key with
  | none =>
    rw [hstored] at rest
    cases rest
    exact h
  | some bytes =>
    rw [hstored] at rest
    obtain ⟨output, c₂, read, write⟩ := Direct.bind_eq_ok.1 rest
    have decoded : Cbor.Record.decode bytes = .ok output ∧ c₂ = c := by
      unfold Direct.record readRecord at read
      cases hr : (Cbor.Record.decode bytes : Except Cbor.Error TxOutput) with
      | error e => rw [hr] at read; cases read
      | ok o => rw [hr] at read; cases read; exact ⟨rfl, rfl⟩
    obtain ⟨decoded, rfl⟩ := decoded
    cases write
    exact h.put (.used (h _ _ _ hstored) decoded)

/-- Marking as processed brings nothing either. -/
theorem MadeOf.foldl_moved (h : before.MadeOf confs c) {txs : List Tx} (comes : ∀ tx ∈ txs,
    Cell.ComesFrom before confs ⟨.unprocessedTxs, tx.key, Cbor.Record.encode tx⟩) :
    before.MadeOf confs (txs.foldl moved c) := by
  induction txs generalizing c with
  | nil => exact h
  | cons tx txs ih =>
    obtain ⟨here, others⟩ := List.forall_mem_cons.1 comes
    exact ih ((h.delete _ _).put (.processed here)) others

end Contents

/-- The changes of a confirmation bring what is its own. -/
theorem Confirmation.madeOf {conf : Confirmation} {soft : Bool} {c c' : Contents}
    (h : ((conf.ops soft).forM BatchOp.direct : Direct StoreError Unit) c = .ok ((), c')) :
    c.MadeOf [conf] c' := by
  have own {cell : Cell} (h : cell.Of conf) : cell.ComesFrom c [conf] :=
    .brought conf (List.mem_singleton_self conf) h
  have start : c.MadeOf [conf] c := fun _ _ _ found => .stored found
  refine Direct.forM_ok (fun (_ : Unit) d => c.MadeOf [conf] d) (fun u _ => u) ?_ () start h
  rintro op hop - d d' made hd
  simp only [ops, List.mem_cons, List.not_mem_nil, or_false] at hop
  obtain rfl | rfl | rfl | rfl | rfl := hop
  · refine Direct.forM_ok (fun (_ : Unit) d => c.MadeOf [conf] d) (fun u _ => u) ?_ () made hd
    rintro tx mem - d d' made ⟨⟩
    exact made.put (own (.tx tx mem))
  · cases hd
    exact made.put (own .block)
  · cases hd
    exact made.put (own .latestPoint)
  · refine Direct.forM_ok (fun (_ : Unit) d => c.MadeOf [conf] d) (fun u _ => u) ?_ () made hd
    rintro o mem - d d' made ⟨⟩
    exact made.put (own (.output o mem))
  · refine Direct.forM_ok (fun (_ : Unit) d => c.MadeOf [conf] d) (fun u _ => u) ?_ () made hd
    rintro ref - - d d' made hd
    cases soft with
    | true => exact made.markUsed hd
    | false => cases hd; exact made.delete .utxos ref.key

/-- What marking leaves, whatever comes of it, if the transactions were stored as unprocessed. -/
theorem Database.madeOf_markProcessed {db : Database} {txs : List Tx}
    (stored : ∀ tx ∈ txs, db.contents.lookup .unprocessedTxs tx.key = some (Cbor.Record.encode tx)) :
    db.contents.MadeOf [] (db.markProcessed txs).2.contents := by
  rw [markProcessed_eq]
  split
  · exact (Contents.MadeOf.refl _).foldl_moved fun tx mem => .stored (stored tx mem)
  · exact .refl _

end ChainIndex
