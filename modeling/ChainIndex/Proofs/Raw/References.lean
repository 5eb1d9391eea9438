import ChainIndex.Proofs.Indexer.Chained
import ChainIndex.Raw.Block

/-!
# References on chain and in the index

* `OutputRef.name`, `RawRef.name`: what a reference names on chain. An index below 2^32 is kept
  (`RawRef.name_toOutputRef`).
* `Tx.refsFrom_zipIdx`: outputs that are counted from the first one have the references from its index on.
* `distinct_eq_eraseDups`: of equal elements the first one stays.
* `references_survive`: so what a transaction creates and spends on chain is what the index takes it to create
  and spend, and a later transaction spends an output under the key that it is saved under.
-/

namespace ChainIndex

/-! ## Names on chain -/

/-- What a reference names: an index of a transaction. -/
def OutputRef.name (r : OutputRef) : TxHash × Nat := (r.hash, r.index.toNat)

/-- What an input names: an index of a transaction. -/
def RawRef.name (r : RawRef) : TxHash × Nat := (r.hash, r.index.toNat)

theorem OutputRef.name_inj {r s : OutputRef} : r.name = s.name ↔ r = s := by
  constructor
  · intro same
    obtain ⟨hash, index⟩ := Prod.mk.inj same
    cases r; cases s
    cases hash
    cases UInt32.toNat_inj.1 index
    rfl
  · rintro rfl
    rfl

theorem RawRef.name_injective : Function.Injective RawRef.name := by
  intro r s same
  obtain ⟨hash, index⟩ := Prod.mk.inj same
  cases r; cases s
  cases hash
  cases UInt64.toNat_inj.1 index
  rfl

/-- An index below 2^32 is kept. -/
theorem RawRef.name_toOutputRef {r : RawRef} (inRange : r.index.toNat < UInt32.size) :
    r.toOutputRef.name = r.name := by
  have kept : r.index.toUInt32.toNat = r.index.toNat := by
    rw [UInt64.toNat_toUInt32, Nat.mod_eq_of_lt inRange]
  exact Prod.ext rfl kept

/-- Outputs that are counted from an index on. -/
theorem Tx.refsFrom_zipIdx {α : Type} (hash : TxHash) (f : α → TxOutput) (first : Nat) (outputs : List α) :
    refsFrom hash (UInt32.ofNat first) ((outputs.zipIdx first).map fun e => f e.1) =
      (outputs.zipIdx first).map fun e => ⟨⟨hash, UInt32.ofNat e.2⟩, f e.1⟩ := by
  induction outputs generalizing first with
  | nil => rfl
  | cons output outputs ih =>
    have next : UInt32.ofNat first + 1 = UInt32.ofNat (first + 1) := (UInt32.ofNat_add first 1).symm
    rw [List.zipIdx_cons, List.map_cons, refsFrom, next, ih, List.map_cons]

/-! ## Lists without repeats -/

section

variable {α β : Type} [DecidableEq α] [DecidableEq β]

theorem distinct_filter (p : α → Bool) (l : List α) : distinct (l.filter p) = (distinct l).filter p := by
  induction l with
  | nil => rfl
  | cons a l ih =>
    by_cases pa : p a
    · rw [List.filter_cons_of_pos pa, distinct, distinct, List.filter_cons_of_pos pa, ih,
        List.filter_filter, List.filter_filter]
      simp only [Bool.and_comm]
    · rw [List.filter_cons_of_neg pa, distinct, List.filter_cons_of_neg pa, ih, List.filter_filter]
      refine List.filter_congr fun b _ => ?_
      by_cases pb : p b
      · have ne : b ≠ a := fun same => pa (same ▸ pb)
        simp [pb, ne]
      · simp [pb]

/-- Of equal elements the first one stays. -/
theorem distinct_eq_eraseDups [BEq α] [LawfulBEq α] (l : List α) : distinct l = l.eraseDups := by
  induction hn : l.length using Nat.strong_induction_on generalizing l with
  | _ n ih =>
    cases l with
    | nil => rfl
    | cons a l =>
      have fewer : (l.filter fun b => !b == a).length < n := by
        have := List.length_filter_le (fun b => !b == a) l
        rw [List.length_cons] at hn
        omega
      rw [List.eraseDups_cons, ← ih _ fewer _ rfl, distinct_filter, distinct]
      congr 1
      refine List.filter_congr fun b _ => ?_
      by_cases same : b = a <;> simp [same]

theorem mem_distinct {l : List α} {a : α} : a ∈ distinct l ↔ a ∈ l := by
  rw [distinct_eq_eraseDups, List.mem_eraseDups]

theorem map_distinct {f : α → β} (inj : Function.Injective f) (l : List α) :
    (distinct l).map f = distinct (l.map f) := by
  induction l with
  | nil => rfl
  | cons a l ih =>
    rw [List.map_cons, distinct, distinct, List.map_cons, ← ih, List.filter_map]
    congr 2
    refine List.filter_congr fun b _ => ?_
    simp [inj.eq_iff]

end

/-! ## Transactions -/

namespace RawTx

/-- The inputs that are spent: the collateral of a transaction that failed. -/
def spends (tx : RawTx) : List RawRef := if tx.isValid then tx.body.inputs else tx.body.collateral

/-- The indices of what is created and of what is spent fit into 32 bits. -/
structure InRange (tx : RawTx) : Prop where
  created : ∀ e ∈ tx.created, e.1 < UInt32.size
  spends : ∀ r ∈ tx.spends, r.index.toNat < UInt32.size

variable {tx : RawTx} (slot : UInt64) (hash : BlockHash) (position : UInt32) (era : UInt8)

/-- What is created stands at successive indices. -/
theorem exists_created (tx : RawTx) : ∃ (first : Nat) (outputs : List RawOutput),
    tx.created = (outputs.zipIdx first).map fun e => (e.2, e.1) := by
  unfold created
  split
  · exact ⟨0, tx.body.outputs, rfl⟩
  · refine ⟨tx.body.outputs.length, tx.body.collateralReturn.toList, ?_⟩
    cases tx.body.collateralReturn <;> rfl

/-- Counting from the first index gives every output its own one. -/
theorem produced_toTx (tx : RawTx) : (tx.toTx slot hash position era).produced =
    tx.created.map fun e => ⟨⟨tx.hash, UInt32.ofNat e.1⟩, e.2.toOutput slot⟩ := by
  obtain ⟨first, outputs, created⟩ := tx.exists_created
  change Tx.refsFrom tx.hash tx.firstOutputIndex (tx.created.map fun e => e.2.toOutput slot) = _
  cases outputs with
  | nil =>
    rw [created]
    rfl
  | cons output outputs =>
    have start : tx.firstOutputIndex = UInt32.ofNat first := by
      rw [firstOutputIndex, created]
      rfl
    rw [start, created, List.map_map, List.map_map]
    exact Tx.refsFrom_zipIdx tx.hash (·.toOutput slot) first (output :: outputs)

/-- So every output has the name that it has on chain. -/
theorem names_produced (inRange : tx.InRange) :
    ((tx.toTx slot hash position era).produced.map fun p => (p.ref.name, p.output)) =
      tx.created.map fun e => ((tx.hash, e.1), e.2.toOutput slot) := by
  rw [produced_toTx, List.map_map]
  refine List.map_congr_left fun e he => ?_
  have kept : (UInt32.ofNat e.1).toNat = e.1 := UInt32.toNat_ofNat_of_lt' (inRange.created e he)
  exact Prod.ext (Prod.ext rfl kept) rfl

/-- And every input names what it names on chain, the first time. -/
theorem names_inputs (inRange : tx.InRange) :
    (tx.toTx slot hash position era).inputs.map (·.ref.name) = (tx.spends.map RawRef.name).eraseDups := by
  have kept : ∀ r ∈ tx.consumed, r.toOutputRef.name = r.name := fun r hr =>
    RawRef.name_toOutputRef (inRange.spends r (mem_distinct.1 hr))
  change (tx.consumed.map fun r => ReferencedOutput.unresolved r.toOutputRef).map (·.ref.name) = _
  rw [List.map_map, ← distinct_eq_eraseDups, ← map_distinct RawRef.name_injective]
  exact List.map_congr_left kept

/-- Of all keys it names those of the outputs that it spends on chain. -/
theorem mem_keys_inputs (inRange : tx.InRange) {r : OutputRef} :
    r.key ∈ (tx.toTx slot hash position era).inputs.map (·.ref.key) ↔ r.name ∈ tx.spends.map RawRef.name := by
  have names : r.name ∈ (tx.toTx slot hash position era).inputs.map (·.ref.name) ↔
      r.name ∈ tx.spends.map RawRef.name := by
    rw [names_inputs slot hash position era inRange, List.mem_eraseDups]
  rw [← names, List.mem_map, List.mem_map]
  refine exists_congr fun io => and_congr_right fun _ => ?_
  exact ⟨fun same => congrArg OutputRef.name (OutputRef.key_inj same),
    fun same => congrArg OutputRef.key (OutputRef.name_inj.1 same)⟩

end RawTx

/-- A saved output that no transaction of the block spends is found under its key. -/
theorem Indexer.lookup_of_confirm {config : IndexerConfig} {s t : Indexer} {header : BlockHeader}
    {txs : List Tx} {c : Confirmation} (ready : s.Ready config) (intact : s.database.contents.Intact)
    (storable : ∀ tx ∈ txs, tx.Storable) (distinct : DistinctRefs (txs.flatMap Tx.produced))
    (h : s.confirm header txs = (.ok c, t)) {o : ReferencedOutput} (produced : o ∈ txs.flatMap Tx.produced)
    (saved : ∃ p ∈ c.saved, p.ref = o.ref) (unspent : ∀ tx ∈ txs, ∀ io ∈ tx.inputs, io.ref ≠ o.ref) :
    t.database.contents.lookup .utxos o.ref.key =
      some (Cbor.Record.encode (o.savedAt header.slot).output) := by
  obtain ⟨-, -, -, left⟩ := confirm_stored ready intact.utxos_storedIn
    (fun tx htx => (storable tx htx).output) h
  have found := utxos_of_confirm ready intact storable h distinct produced saved unspent
  rw [left.utxos_eq] at found
  rw [left.lookup_eq, found]
  rfl

/-- Take a transaction of any era whose indices fit into 32 bits, as the index keeps it. The outputs that it
produces are those that it creates on chain, in order and under the names that they have there: the outputs of its
body from 0 on, or, if it failed in its second phase, its collateral return behind these, if it has one. Its inputs
name what it spends on chain, the inputs of its body or else its collateral, in order and each once, and are not
looked up. So a later transaction names the key of an output if and only if it spends that output on chain; and
under this key the confirmation of the block has saved it. -/
theorem references_survive {tx : RawTx} (inRange : tx.InRange) (slot : UInt64) (hash : BlockHash)
    (position : UInt32) (era : UInt8) :
    let mapped := tx.toTx slot hash position era
    ((mapped.produced.map fun p => (p.ref.name, p.output)) =
      if tx.isValid then tx.body.outputs.mapIdx fun i output => ((tx.hash, i), output.toOutput slot)
      else tx.body.collateralReturn.toList.map fun output =>
        ((tx.hash, tx.body.outputs.length), output.toOutput slot)) ∧
    mapped.inputs.map (·.ref.name) =
      ((if tx.isValid then tx.body.inputs else tx.body.collateral).map RawRef.name).eraseDups ∧
    (∀ io ∈ mapped.inputs, io.output = .unknown) ∧
    ∀ p ∈ mapped.produced,
      (∀ (later : RawTx) slot' hash' position' era', later.InRange →
        (p.ref.key ∈ (later.toTx slot' hash' position' era').inputs.map (·.ref.key) ↔
          p.ref.name ∈ later.spends.map RawRef.name)) ∧
      ∀ (config : IndexerConfig) (s t : Indexer) (header : BlockHeader) (txs : List Tx) (c : Confirmation),
        s.Ready config → s.database.contents.Intact → (∀ other ∈ txs, other.Storable) →
        DistinctRefs (txs.flatMap Tx.produced) → mapped ∈ txs → s.confirm header txs = (.ok c, t) →
        (∃ q ∈ c.saved, q.ref = p.ref) → (∀ other ∈ txs, ∀ io ∈ other.inputs, io.ref ≠ p.ref) →
        t.database.contents.lookup .utxos p.ref.key =
          some (Cbor.Record.encode (p.savedAt header.slot).output) := by
  intro mapped
  refine ⟨?_, RawTx.names_inputs slot hash position era inRange, fun io hio => ?_, fun p hp =>
    ⟨fun later slot' hash' position' era' inRange' => RawTx.mem_keys_inputs _ _ _ _ inRange', ?_⟩⟩
  · rw [RawTx.names_produced slot hash position era inRange, RawTx.created]
    split
    · rw [List.map_map, List.mapIdx_eq_zipIdx_map]
      rfl
    · rw [List.map_map]
      rfl
  · obtain ⟨r, -, rfl⟩ := List.mem_map.1 hio
    rfl
  · intro config s t header txs c ready intact storable distinct mem h saved unspent
    exact Indexer.lookup_of_confirm ready intact storable distinct h
      (List.mem_flatMap.2 ⟨mapped, mem, hp⟩) saved unspent

namespace Fixture

/-- An output to an address of a script. -/
def rawOutput (coin : UInt64) : RawOutput :=
  ⟨Address.ofBytes (0x61 :: List.replicate 28 7), coin, [], none⟩

/-- A transaction that failed: its collateral, which it names twice, is spent and returned in part. -/
def failedTx : RawTx where
  hash := txHash 9 0
  body := {
    inputs := [⟨txHash 8 0, 0⟩]
    outputs := [rawOutput 2000000]
    fee := 200000
    collateral := [⟨txHash 8 1, 1⟩, ⟨txHash 8 1, 1⟩]
    collateralReturn := some (rawOutput 4000000) }
  isValid := false
  metadata := none

/-- A transaction that spends the return. -/
def returningTx : RawTx where
  hash := txHash 10 0
  body := ⟨[⟨txHash 9 0, 1⟩], [], 200000, [], none⟩
  isValid := true
  metadata := none

end Fixture

open Fixture in
/-- The collateral return is the second output of the transaction, and the collateral is spent once. The
transaction that spends the return finds it under its key. -/
theorem references_failedTx :
    let mapped := failedTx.toTx 9 (blockHash 9) 0 Era.conway.id
    failedTx.InRange ∧ returningTx.InRange ∧
      (mapped.produced.map fun p => (p.ref.name, p.output)) =
        [((txHash 9 0, 1), (rawOutput 4000000).toOutput 9)] ∧
      mapped.inputs.map (·.ref.name) = [(txHash 8 1, 1)] ∧
      ∃ c t, follower.confirm (header 9) [mapped] = (.ok c, t) ∧ ∀ p ∈ mapped.produced,
        p.ref.key ∈ (returningTx.toTx 10 (blockHash 10) 0 Era.conway.id).inputs.map (·.ref.key) ∧
        t.database.contents.lookup .utxos p.ref.key =
          some (Cbor.Record.encode (p.savedAt 9).output) := by
  intro mapped
  have inRange : failedTx.InRange := ⟨by decide, by decide⟩
  have inRange' : returningTx.InRange := ⟨by decide, by decide⟩
  obtain ⟨produced, inputs, -, later⟩ := references_survive inRange 9 (blockHash 9) 0 Era.conway.id
  have once : ((if failedTx.isValid then failedTx.body.inputs else failedTx.body.collateral).map
      RawRef.name).eraseDups = [(txHash 8 1, 1)] := by decide
  have succeeds : (follower.confirm (header 9) [mapped]).1.isOk = true := by decide +kernel
  obtain ⟨c, confirmed⟩ := Indexer.exists_of_isOk succeeds
  have ready : follower.Ready follower.config := ⟨rfl, by decide, rfl, rfl⟩
  have storable : ∀ tx ∈ [mapped], tx.Storable := List.forall_mem_singleton.2 {
    metadata := nofun
    inputs := by decide
    input := List.forall_mem_singleton.2 .unknown
    outputs := by decide
    output := List.forall_mem_singleton.2 ⟨by decide +kernel, by decide, nofun, nofun⟩ }
  have distinct : DistinctRefs ([mapped].flatMap Tx.produced) := by
    rw [DistinctRefs]
    decide
  have saved : ∀ p ∈ mapped.produced, ∃ q ∈ c.saved, q.ref = p.ref := by
    rw [Indexer.confirm_filled ready .empty confirmed]
    decide +kernel
  refine ⟨inRange, inRange', produced, inputs.trans once, c, _, confirmed, fun p hp => ?_⟩
  obtain ⟨names, saves⟩ := later p hp
  obtain rfl := List.mem_singleton.1 hp
  exact ⟨(names returningTx 10 (blockHash 10) 0 Era.conway.id inRange').2 (by decide),
    saves follower.config follower _ (header 9) [mapped] c ready .empty storable distinct
      (List.mem_singleton_self mapped) confirmed (saved _ hp) (by decide)⟩

end ChainIndex
