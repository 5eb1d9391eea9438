import ChainIndex.Fixture.Basic
import ChainIndex.Proofs.Indexer.Notices
import ChainIndex.Proofs.Indexer.Outputs
import ChainIndex.Proofs.Indexer.Readable
import ChainIndex.Proofs.Storage.Txs
import Mathlib.Data.List.Perm.Subperm

/-!
# What a confirmation leaves, exactly

* `filled`: the transactions of a block with their inputs looked up, as a function of the outputs that are
  stored. Looking them up with success comes to that (`resolveInputs_eq`).
* `Utxos.confirmed`: the outputs after a block: those of its transactions on top of what is there, and then
  without what they consume, or with that marked as used. Saving and spending come to that
  (`Utxos.foldl_save`, `Confirmation.foldl_ofBlock`).
* `Contents.Specified`: every bucket after a block, in terms of the buckets before it. A confirmation that
  succeeds leaves just that, and the queries read it back (`confirm_specified`).
-/

namespace ChainIndex

/-- The last of some outputs under a reference. -/
def lastUnder (outputs : List ReferencedOutput) (r : OutputRef) : Option TxOutput :=
  (outputs.reverse.find? (·.ref = r)).map (·.output)

/-! ## Inputs -/

/-- An input with its output: if it is not known, that of the last earlier transaction that produces it, else
the stored one. -/
def fillInput (m : Utxos) (earlier : List Tx) (input : ReferencedOutput) : ReferencedOutput :=
  if input.output.isUnknown then
    { input with
      output := ((lastUnder (earlier.flatMap Tx.produced) input.ref).or (m input.ref)).getD .unknown }
  else input

/-- A transaction with its inputs filled in, after others of its block. -/
def Tx.filled (m : Utxos) (earlier : List Tx) (tx : Tx) : Tx :=
  { tx with inputs := tx.inputs.map (fillInput m earlier) }

/-- The transactions of a block with their inputs filled in. -/
def filled (m : Utxos) (txs : List Tx) : List Tx := txs.mapIdx fun i tx => tx.filled m (txs.take i)

section Resolve

variable {ε : Type} {lookup : OutputRef → Except ε TxOutput} {m : Utxos} {earlier : List Tx}
  (reads : ∀ r output, lookup r = .ok output → output = (m r).getD .unknown)

include reads

theorem resolveInput_eq {input input' : ReferencedOutput}
    (h : resolveInput lookup (earlier.flatMap Tx.produced).reverse input = .ok input') :
    input' = fillInput m earlier input := by
  have produced : producedOutput? (earlier.flatMap Tx.produced).reverse input.ref =
      lastUnder (earlier.flatMap Tx.produced) input.ref := by
    rw [producedOutput?, lastUnder]
    rfl
  unfold resolveInput at h
  unfold fillInput
  rw [produced] at h
  split at h
  · rename_i unknown
    rw [if_pos unknown]
    cases hl : lastUnder (earlier.flatMap Tx.produced) input.ref with
    | some output =>
      rw [hl] at h
      cases h
      rfl
    | none =>
      rw [hl] at h
      cases hs : lookup input.ref with
      | error e => rw [hs] at h; cases h
      | ok output =>
        rw [hs] at h
        cases h
        rw [reads _ _ hs]
        rfl
  · rename_i known
    rw [if_neg known]
    cases h
    rfl

theorem resolveFrom_eq {txs txs' : List Tx}
    (h : resolveFrom lookup (earlier.flatMap Tx.produced).reverse txs = .ok txs') :
    txs' = txs.mapIdx fun i tx => tx.filled m (earlier ++ txs.take i) := by
  induction txs generalizing earlier txs' with
  | nil => cases h; rfl
  | cons tx txs ih =>
    rw [resolveFrom] at h
    cases hin : tx.inputs.mapM (resolveInput lookup (earlier.flatMap Tx.produced).reverse) with
    | error e => rw [hin] at h; cases h
    | ok inputs =>
      have here : inputs = tx.inputs.map (fillInput m earlier) := by
        have each := map_eq_of_map_eq_map_ok (g := id) (fun _ _ => resolveInput_eq reads)
          (map_eq_of_mapM_eq_ok hin)
        rwa [List.map_id] at each
      have later : tx.produced.reverse ++ (earlier.flatMap Tx.produced).reverse =
          ((earlier ++ [tx]).flatMap Tx.produced).reverse := by simp
      rw [hin, later] at h
      cases hrest : resolveFrom lookup ((earlier ++ [tx]).flatMap Tx.produced).reverse txs with
      | error e => simp only [Bind.bind, Except.bind, hrest] at h; cases h
      | ok rest =>
        simp only [Bind.bind, Except.bind, hrest] at h
        cases h
        rw [ih hrest, here, List.mapIdx_cons, List.take_zero, List.append_nil]
        simp only [List.take_succ_cons, List.append_assoc, List.singleton_append]
        rfl

/-- Looking up inputs with success fills them in. -/
theorem resolveInputs_eq {txs txs' : List Tx} (h : resolveInputs lookup txs = .ok txs') :
    txs' = filled m txs := by
  change resolveFrom lookup (([] : List Tx).flatMap Tx.produced).reverse txs = .ok txs' at h
  exact resolveFrom_eq reads h

end Resolve

/-! ## Outputs -/

/-- The outputs after a block, of which some transactions are stored: those of kept addresses that they produce,
with the slot of the block, on top of the others; and then what they consume of kept addresses is gone, or
marked as used if it is there. -/
def Utxos.confirmed (config : IndexerConfig) (slot : UInt64) (stored : List Tx) (m : Utxos) : Utxos := fun r =>
  let kept (o : ReferencedOutput) : Bool := config.keepsAddress o.output.address
  let produced := (stored.flatMap Tx.produced).filter kept
  let consumed := ((stored.flatMap (·.inputs)).filter kept).map (·.ref)
  let overlaid := ((lastUnder produced r).map fun o => { o with slot }).or (m r)
  if r ∈ consumed then if config.softDelete then overlaid.map TxOutput.used else none else overlaid

/-- Of outputs that are saved under one reference the last one stays. -/
theorem Utxos.foldl_save (m : Utxos) (outputs : List ReferencedOutput) (r : OutputRef) :
    outputs.foldl save m r = (lastUnder outputs r).or (m r) := by
  induction outputs generalizing m with
  | nil => rfl
  | cons o rest ih =>
    rw [List.foldl_cons, ih, lastUnder, lastUnder, List.reverse_cons, List.find?_append]
    cases rest.reverse.find? (·.ref = r) with
    | some found => rfl
    | none =>
      rw [save]
      by_cases same : r = o.ref
      · simp [same]
      · simp [same, Ne.symm same]

namespace Confirmation

variable {config : IndexerConfig} {slot : UInt64}

theorem flatMap_savedOutputs (stored : List Tx) : stored.flatMap (savedOutputs config slot) =
    ((stored.flatMap Tx.produced).filter fun o => config.keepsAddress o.output.address).map fun o =>
      { o with output := { o.output with slot } } := by
  rw [List.filter_flatMap, List.map_flatMap]
  rfl

theorem flatMap_spentOutputs (stored : List Tx) : stored.flatMap (spentOutputs config) =
    ((stored.flatMap (·.inputs)).filter fun o => config.keepsAddress o.output.address).map (·.ref) := by
  rw [List.filter_flatMap, List.map_flatMap]
  rfl

/-- What a confirmation saves and spends leaves the outputs after the block. -/
theorem foldl_ofBlock (header : BlockHeader) (txs : List Tx) (m : Utxos) :
    let c := ofBlock config header txs
    c.spent.foldl (Utxos.spend config.softDelete) (c.saved.foldl Utxos.save m) =
      m.confirmed config header.slot
        (if config.keepAllOutputs then txs else txs.filter config.isRelevant) := by
  intro c
  funext r
  rw [Utxos.foldl_spend, Utxos.foldl_save]
  simp only [c, ofBlock, flatMap_savedOutputs, flatMap_spentOutputs, Utxos.confirmed]
  have overlaid (outputs : List ReferencedOutput) :
      lastUnder (outputs.map fun o => { o with output := { o.output with slot := header.slot } }) r =
        (lastUnder outputs r).map fun o => { o with slot := header.slot } := by
    rw [lastUnder, lastUnder, ← List.map_reverse, List.find?_map, Option.map_map, Option.map_map]
    rfl
  rw [overlaid]

end Confirmation

namespace Contents

/-- The outputs that are stored. -/
def utxos (c : Contents) : Utxos := fun r =>
  (c.lookup .utxos r.key).bind fun value => (Cbor.Record.decode value).toOption

theorem Intact.utxos_storedIn {c : Contents} (intact : c.Intact) : c.utxos.StoredIn c := by
  have holds : ∀ (r : OutputRef) value, c.lookup .utxos r.key = some value →
      ∃ o : TxOutput, o.Storable ∧ value = Cbor.Record.encode o ∧ c.utxos r = some o := by
    intro r value hl
    obtain ⟨_, o, storable, -, rfl⟩ := intact .utxos r.key value hl
    refine ⟨o, storable, rfl, ?_⟩
    rw [utxos, hl, Option.bind_some, TxOutput.decode_encode storable]
    rfl
  refine ⟨fun r => ?_, fun key value hl => ?_, fun r o ho => ?_⟩
  · cases hl : c.lookup .utxos r.key with
    | none => rw [utxos, hl]; rfl
    | some value =>
      obtain ⟨o, -, rfl, ho⟩ := holds r value hl
      rw [ho]
      rfl
  · obtain ⟨r, -, -, rfl, -⟩ := intact .utxos key value hl
    exact ⟨r, rfl⟩
  · obtain ⟨value, hl, -⟩ := Option.bind_eq_some_iff.1 ho
    obtain ⟨o', storable, -, ho'⟩ := holds r value hl
    rw [ho] at ho'
    cases ho'
    exact storable

end Contents

/-- The stored outputs are those of the map that is stored. -/
theorem Utxos.StoredIn.utxos_eq {m : Utxos} {c : Contents} (h : m.StoredIn c) : c.utxos = m := by
  funext r
  rw [Contents.utxos, h.lookup_eq]
  cases hm : m r with
  | none => rfl
  | some o =>
    rw [Option.map_some, Option.bind_some, TxOutput.decode_encode (h.storable r o hm)]
    rfl

/-! ## A whole confirmation -/

namespace Contents

/-- The transactions of a block that are followed. -/
def relevantTxs (config : IndexerConfig) (txs : List Tx) (c : Contents) : List Tx :=
  (filled c.utxos txs).filter config.isRelevant

/-- The record of a block. -/
def blockRecord (config : IndexerConfig) (header : BlockHeader) (txs : List Tx) (c : Contents) :
    ConfirmedBlock :=
  .ofHeader header
    ((if config.keepAllHashes then filled c.utxos txs else c.relevantTxs config txs).map (·.hash))

/-- The outputs after a block. -/
def confirmedUtxos (config : IndexerConfig) (header : BlockHeader) (txs : List Tx) (c : Contents) : Utxos :=
  c.utxos.confirmed config header.slot
    (if config.keepAllOutputs then filled c.utxos txs else c.relevantTxs config txs)

/-- What is stored after a block, in terms of what was stored before it. -/
structure Specified (config : IndexerConfig) (header : BlockHeader) (txs : List Tx)
    (before after : Contents) : Prop where
  latestPoint : ∀ key, after.lookup .latestPoint key =
    if key = Key.latestPoint then some (Cbor.Record.encode header.point)
    else before.lookup .latestPoint key
  confirmedBlocks : ∀ key, after.lookup .confirmedBlocks key =
    if key = Key.ofSlot header.slot then some (Cbor.Record.encode (before.blockRecord config header txs))
    else before.lookup .confirmedBlocks key
  unprocessedTxs : ∀ key, after.lookup .unprocessedTxs key =
    (((before.relevantTxs config txs).find? (·.key = key)).map Cbor.Record.encode).or
      (before.lookup .unprocessedTxs key)
  processedTxs : after.get .processedTxs = before.get .processedTxs
  utxos : (before.confirmedUtxos config header txs).StoredIn after

/-- What the queries find in a database after a block, in terms of what was stored before it. -/
structure ReadBack (config : IndexerConfig) (header : BlockHeader) (txs : List Tx) (before : Contents)
    (db : Database) : Prop where
  latestPoint : db.latestPoint? = .ok (some header.point)
  block : db.blocksFrom header.slot 1 = .ok [before.blockRecord config header txs]
  output : ∀ r, db.txOutput r = .ok ((before.confirmedUtxos config header txs r).getD .unknown)
  unprocessed : ∃ found : List Tx, (∀ max, db.unprocessedTxs max = .ok (found.take max)) ∧
    (found.Pairwise fun tx later => tx.key < later.key) ∧
    ∀ tx : Tx, tx.Storable → (tx ∈ found ↔ tx ∈ before.relevantTxs config txs ∨
      before.lookup .unprocessedTxs tx.key = some (Cbor.Record.encode tx) ∧
        ∀ new ∈ before.relevantTxs config txs, new.key ≠ tx.key)
  processed : ∀ db₀ : Database, db₀.Sound → db₀.contents = before →
    ∀ max, db.processedTxs max = db₀.processedTxs max

end Contents

/-- Transactions with different keys on top of others. -/
theorem KeyMap.get?_insertTxs {m : KeyMap Bytes} {txs : List Tx} (distinct : (txs.map Tx.key).Nodup)
    (key : Bytes) : (m.insertTxs txs).get? key =
      ((txs.find? (·.key = key)).map Cbor.Record.encode).or (m.get? key) := by
  cases found : txs.find? (·.key = key) with
  | none =>
    have absent : key ∉ txs.map Tx.key := by
      rintro hm
      obtain ⟨tx, htx, same⟩ := List.mem_map.1 hm
      exact List.find?_eq_none.1 found tx htx (by simpa using same)
    rw [get?_insertTxs_of_notMem absent]
    rfl
  | some tx =>
    have same : tx.key = key := by simpa using List.find?_some found
    rw [← same, get?_insertTxs_of_mem distinct (List.mem_of_find?_eq_some found)]
    rfl

/-- A block whose transactions stand at different positions has no more of them than can be counted. -/
theorem length_lt_of_positions {txs : List Tx} (positions : (txs.map (·.indexInBlock)).Nodup) :
    txs.length < UInt64.size := by
  have inRange : txs.map (·.indexInBlock.toNat) ⊆ List.range UInt32.size := by
    intro n hn
    obtain ⟨tx, -, rfl⟩ := List.mem_map.1 hn
    exact List.mem_range.2 tx.indexInBlock.toNat_lt
  have distinct : (txs.map (·.indexInBlock.toNat)).Nodup := by
    have distinct := positions.map fun _ _ => UInt32.toNat_inj.1
    rwa [List.map_map] at distinct
  have length := (List.subperm_of_subset distinct inRange).length_le
  rw [List.length_map, List.length_range] at length
  exact Nat.lt_of_le_of_lt length (by decide)

/-- What a confirmation contributes is a function of the stored outputs. -/
theorem Indexer.confirm_filled {config : IndexerConfig} {s t : Indexer} {header : BlockHeader}
    {txs : List Tx} {c : Confirmation} (ready : s.Ready config) (intact : s.database.contents.Intact)
    (h : s.confirm header txs = (.ok c, t)) :
    c = Confirmation.ofBlock config header (filled s.database.contents.utxos txs) := by
  obtain ⟨resolved, database, hresolved, rfl, -, -⟩ := confirm_ok h
  rw [ready.config_eq, resolveInputs_eq (fun _ _ => intact.utxos_storedIn.txOutput) hresolved]

/-- The contents are left as specified. -/
theorem Indexer.specified_of_confirm {config : IndexerConfig} {s t : Indexer} {header : BlockHeader}
    {txs : List Tx} {c : Confirmation} (ready : s.Ready config) (intact : s.database.contents.Intact)
    (positions : (txs.map (·.indexInBlock)).Nodup) (storable : ∀ tx ∈ txs, tx.Storable)
    (h : s.confirm header txs = (.ok c, t)) :
    s.database.contents.Specified config header txs t.database.contents := by
  have written := confirm_written ready h
  have distinct := nodup_keys_of_confirm h positions
  have contributes := confirm_filled ready intact h
  obtain ⟨-, -, -, saved⟩ := confirm_stored ready intact.utxos_storedIn
    (fun tx htx => (storable tx htx).output) h
  subst contributes
  refine ⟨fun key => ?_, fun key => ?_, fun key => ?_, written.processedTxs, ?_⟩
  · rw [Contents.lookup, written.latestPoint, KeyMap.get?_insert]
    rfl
  · rw [Contents.lookup, written.confirmedBlocks, KeyMap.get?_insert]
    rfl
  · rw [Contents.lookup, written.unprocessedTxs, KeyMap.get?_insertTxs distinct]
    rfl
  · rwa [Confirmation.foldl_ofBlock] at saved

namespace Contents.Specified

variable {config : IndexerConfig} {header : BlockHeader} {txs : List Tx} {before after : Contents}

/-- The record of the block is the first one from its slot on. -/
theorem blocksFrom_slot (h : before.Specified config header txs after) (intact : after.Intact)
    (block : (before.blockRecord config header txs).Storable) {db : Database} (sound : db.Sound)
    (same : db.contents = after) :
    db.blocksFrom header.slot 1 = .ok [before.blockRecord config header txs] := by
  obtain ⟨blocks, stored⟩ := intact.exists_storedBlocks
  refine (same ▸ stored).blocksFrom_one sound (b := before.blockRecord config header txs) ?_
  have entry : (before.blockRecord config header txs).entry ∈ (after.get .confirmedBlocks).entries :=
    KeyMap.get?_eq_some_iff.1 ((h.confirmedBlocks _).trans (if_pos rfl))
  rw [stored.entries] at entry
  obtain ⟨b, hb, eq⟩ := List.mem_map.1 entry
  have written := Cbor.Record.encode_inj (ConfirmedBlock.decode_encode (stored.storable b hb))
    (ConfirmedBlock.decode_encode block) (Prod.mk.inj eq).2
  exact written ▸ hb

/-- The unprocessed transactions are those that are followed, and those of before with other keys. -/
theorem mem_unprocessed (h : before.Specified config header txs after)
    (distinct : ((before.relevantTxs config txs).map Tx.key).Nodup)
    (storable : ∀ tx ∈ before.relevantTxs config txs, tx.Storable) {found : List Tx}
    (stored : StoredTxs .unprocessedTxs found after) {tx : Tx} (tidy : tx.Storable) :
    tx ∈ found ↔ tx ∈ before.relevantTxs config txs ∨
      before.lookup .unprocessedTxs tx.key = some (Cbor.Record.encode tx) ∧
        ∀ new ∈ before.relevantTxs config txs, new.key ≠ tx.key := by
  rw [stored.mem_iff tidy, h.unprocessedTxs]
  cases hnew : (before.relevantTxs config txs).find? (·.key = tx.key) with
  | none =>
    have absent : ∀ new ∈ before.relevantTxs config txs, new.key ≠ tx.key := fun new hm eq =>
      List.find?_eq_none.1 hnew new hm (by simpa using eq)
    have notNew : tx ∉ before.relevantTxs config txs := fun hm => absent tx hm rfl
    simpa [notNew] using fun _ => absent
  | some new =>
    have hm := List.mem_of_find?_eq_some hnew
    have key : new.key = tx.key := by simpa using List.find?_some hnew
    have shadowed : ¬∀ new ∈ before.relevantTxs config txs, new.key ≠ tx.key := fun none =>
      none new hm key
    have one : Cbor.Record.encode new = Cbor.Record.encode tx ↔ tx ∈ before.relevantTxs config txs := by
      constructor
      · exact fun eq => Tx.encode_inj (storable new hm) tidy eq ▸ hm
      · exact fun hm' => congrArg _ (List.inj_on_of_nodup_map distinct hm hm' key)
    simp [shadowed, one]

/-- Contents that are as specified are read back so, if the records can be read. -/
theorem readBack (h : before.Specified config header txs after) (intact : before.Intact)
    (intact' : after.Intact) (distinct : ((before.relevantTxs config txs).map Tx.key).Nodup)
    (block : (before.blockRecord config header txs).Storable)
    (storable : ∀ tx ∈ before.relevantTxs config txs, tx.Storable) {db : Database} (sound : db.Sound)
    (same : db.contents = after) : ReadBack config header txs before db where
  latestPoint := by
    refine sound.latestPoint?_eq ?_
    rw [same, h.latestPoint, if_pos rfl]
    rfl
  block := h.blocksFrom_slot intact' block sound same
  output := (same ▸ h.utxos).txOutput_eq sound
  unprocessed := by
    obtain ⟨found, stored⟩ := intact'.exists_storedTxs (.inl rfl)
    exact ⟨found, (same ▸ stored).firstTxs sound, stored.ordered,
      fun _ => h.mem_unprocessed distinct storable stored⟩
  processed := by
    intro db₀ sound₀ same₀ max
    obtain ⟨found, stored⟩ := intact.exists_storedTxs (.inr rfl)
    have stored' : StoredTxs .processedTxs found after := ⟨h.processedTxs ▸ stored.entries, stored.storable⟩
    exact ((same ▸ stored').firstTxs sound max).trans ((same₀ ▸ stored).firstTxs sound₀ max).symm

end Contents.Specified

/-- Take any configuration, a store whose every entry can be read, and a block whose transactions stand at
different positions. If its confirmation succeeds, whatever faults the store has, then it changes nothing but
the contents of the store and the latest point in memory. The contents are left as specified, and whatever the
confirmation has written is read back by the queries. -/
theorem confirm_specified {config : IndexerConfig} {s t : Indexer} {header : BlockHeader} {txs : List Tx}
    {c : Confirmation} (ready : s.Ready config) (intact : s.database.contents.Intact)
    (positions : (txs.map (·.indexInBlock)).Nodup) (storable : ∀ tx ∈ txs, tx.Storable)
    (h : s.confirm header txs = (.ok c, t)) :
    let before := s.database.contents
    let after := t.database.contents
    t = { s with database := s.database.withContents after, latestPoint := header.point } ∧
    c.block = before.blockRecord config header txs ∧ c.txs = before.relevantTxs config txs ∧
    before.Specified config header txs after ∧
    ∀ db : Database, db.Sound → db.contents = after → before.ReadBack config header txs db := by
  intro before after
  have specified := Indexer.specified_of_confirm ready intact positions storable h
  have distinct := Indexer.nodup_keys_of_confirm h positions
  obtain ⟨tidy, intact'⟩ :=
    Indexer.storable_of_confirm ready intact (length_lt_of_positions positions) storable h
  have contributes := Indexer.confirm_filled ready intact h
  have database : t.database = s.database.withContents after := Indexer.confirm_database h
  have left : t = { s with database := t.database, latestPoint := header.point } := by
    obtain ⟨_, _, -, -, -, rfl⟩ := Indexer.confirm_ok h
    rw [← ready.writer_eq]
  subst contributes
  refine ⟨left.trans (by rw [← database]), rfl, rfl, specified, fun db sound same => ?_⟩
  · exact specified.readBack intact intact' distinct tidy.block tidy.txs sound same

/-- An output is spent in its own block, and is read back as used with the slot of the block. The transaction
that concerns another address is not listed. -/
theorem readBack_chainedSpend :
    let s : Indexer :=
      { config := { addressesOfInterest := ["alice"], softDelete := true }
        database := .new .memory
        window := .empty 10 }
    let txs := [Fixture.tx 1 0 [] [Fixture.output "alice" 5],
      Fixture.tx 1 1 [⟨Fixture.txHash 1 0, 0⟩] [Fixture.output "bob" 5],
      Fixture.tx 1 2 [] [Fixture.output "bob" 7]]
    let db := (s.confirm (Fixture.header 1) txs).2.database
    db.txOutput ⟨Fixture.txHash 1 0, 0⟩ =
      .ok { Fixture.output "alice" 5 with slot := 1, isUsed := true } ∧
    db.blocksFrom 1 1 =
      .ok [.ofHeader (Fixture.header 1) [Fixture.txHash 1 0, Fixture.txHash 1 1]] := by
  intro s txs db
  have storable : ∀ tx ∈ txs, tx.Storable := by
    simp only [txs, List.forall_mem_cons]
    exact ⟨Fixture.storable_tx _ _ (by decide) (by decide)
        (List.forall_mem_singleton.2 (Fixture.storable_output 5 (by decide))),
      Fixture.storable_tx _ _ (by decide) (by decide)
        (List.forall_mem_singleton.2 (Fixture.storable_output 5 (by decide))),
      Fixture.storable_tx _ _ (by decide) (by decide)
        (List.forall_mem_singleton.2 (Fixture.storable_output 7 (by decide))), nofun⟩
  have ready : s.Ready s.config := ⟨rfl, by decide, rfl, rfl⟩
  have succeeds : (s.confirm (Fixture.header 1) txs).1.isOk = true := by decide +kernel
  cases hc : s.confirm (Fixture.header 1) txs with
  | mk answer t =>
    rw [hc] at succeeds
    cases answer with
    | error e => cases succeeds
    | ok c =>
      obtain ⟨left, -, -, -, read⟩ := confirm_specified ready .empty (by decide) storable hc
      have here : db = t.database := congrArg (·.2.database) hc
      have sound : db.Sound := by
        rw [here, left]
        exact (Database.Sound.new .memory).withContents _
      have back := read db sound (congrArg _ here)
      refine ⟨(back.output _).trans (congrArg _ (by decide +kernel)), ?_⟩
      exact back.block.trans (congrArg _ (by decide +kernel))

end ChainIndex
