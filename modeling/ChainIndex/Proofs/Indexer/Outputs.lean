import ChainIndex.Proofs.Indexer.Reachable
import ChainIndex.Proofs.Indexer.Resolve
import ChainIndex.Proofs.Storage.Utxos

/-!
# What a confirmation does to the stored outputs

* `IndexerConfig.KeepsTrack`: configurations under which no output of a kept address is missed: without
  addresses, with all outputs kept, or with both sides of transactions checked.
* `Confirmation.saved_ofBlock`, `Confirmation.spent_ofBlock`: under them it does not matter which
  transactions are followed; a block saves the outputs of kept addresses and spends the inputs of kept
  addresses.
* `Indexer.confirm_stored`: a confirmation that succeeds takes stored outputs to stored outputs.
-/

namespace ChainIndex

/-! ## Saved and spent outputs -/

/-- No output of a kept address is missed. -/
def IndexerConfig.KeepsTrack (c : IndexerConfig) : Prop :=
  c.filtersAddresses = false ∨ c.keepAllOutputs = true ∨ c.addressCheck = .both

namespace Confirmation

variable {c : IndexerConfig} {slot : UInt64} {tx : Tx}

theorem mem_savedOutputs {o : ReferencedOutput} : o ∈ savedOutputs c slot tx ↔
    ∃ p ∈ tx.produced, c.keepsAddress p.output.address = true ∧
      o = { p with output := { p.output with slot } } := by
  constructor
  · intro h
    obtain ⟨p, hp, rfl⟩ := List.mem_map.1 h
    obtain ⟨hmem, hkeep⟩ := List.mem_filter.1 hp
    exact ⟨p, hmem, hkeep, rfl⟩
  · rintro ⟨p, hmem, hkeep, rfl⟩
    exact List.mem_map.2 ⟨p, List.mem_filter.2 ⟨hmem, hkeep⟩, rfl⟩

theorem mem_spentOutputs {r : OutputRef} : r ∈ spentOutputs c tx ↔
    ∃ io ∈ tx.inputs, c.keepsAddress io.output.address = true ∧ io.ref = r := by
  simp [spentOutputs, and_assoc]

/-- A block saves outputs of the transactions that are followed, or of all if all outputs are kept. -/
theorem mem_saved_ofBlock {header : BlockHeader} {txs : List Tx} {o : ReferencedOutput} :
    o ∈ (ofBlock c header txs).saved ↔ ∃ tx ∈ txs,
      (c.keepAllOutputs = true ∨ c.isRelevant tx = true) ∧ o ∈ savedOutputs c header.slot tx := by
  simp only [ofBlock, List.mem_flatMap]
  split <;> rename_i all <;> simp [all, and_assoc]

/-- And it spends the inputs of these transactions. -/
theorem mem_spent_ofBlock {header : BlockHeader} {txs : List Tx} {r : OutputRef} :
    r ∈ (ofBlock c header txs).spent ↔ ∃ tx ∈ txs,
      (c.keepAllOutputs = true ∨ c.isRelevant tx = true) ∧ r ∈ spentOutputs c tx := by
  simp only [ofBlock, List.mem_flatMap]
  split <;> rename_i all <;> simp [all, and_assoc]

theorem exists_of_mem_spent {header : BlockHeader} {txs : List Tx} {r : OutputRef}
    (h : r ∈ (ofBlock c header txs).spent) : ∃ tx ∈ txs, r ∈ spentOutputs c tx := by
  obtain ⟨tx, htx, -, hr⟩ := mem_spent_ofBlock.1 h
  exact ⟨tx, htx, hr⟩

/-- A transaction that is not followed has nothing to save or to spend, unless all outputs are kept. -/
theorem nil_of_not_relevant (slot : UInt64) (keepsTrack : c.KeepsTrack) (notAll : c.keepAllOutputs = false)
    (notRelevant : c.isRelevant tx = false) :
    savedOutputs c slot tx = [] ∧ spentOutputs c tx = [] := by
  have hfilters : c.filtersAddresses = true := by
    cases hf : c.filtersAddresses with
    | true => rfl
    | false => simp [IndexerConfig.isRelevant, hf] at notRelevant
  have hboth : c.addressCheck = .both := by
    rcases keepsTrack with h | h | h
    · rw [hfilters] at h; cases h
    · rw [notAll] at h; cases h
    · exact h
  have hsides : AddressCheck.both.inputs = true ∧ AddressCheck.both.outputs = true := by decide
  simp only [IndexerConfig.isRelevant, hfilters, hboth, hsides, Bool.not_true, Bool.false_or,
    Bool.true_and, Bool.or_eq_false_iff, List.any_eq_false] at notRelevant
  have hkeeps : ∀ address, c.keepsAddress address = c.isOfInterest address := fun address => by
    simp [IndexerConfig.keepsAddress, notAll, hfilters]
  constructor
  · simp only [savedOutputs, hkeeps, List.map_eq_nil_iff, List.filter_eq_nil_iff]
    intro o ho
    obtain ⟨i, hi, rfl⟩ := Tx.mem_produced.1 ho
    exact notRelevant.2 _ (List.getElem_mem hi)
  · simp only [spentOutputs, hkeeps, List.map_eq_nil_iff, List.filter_eq_nil_iff]
    exact notRelevant.1

theorem flatMap_filter_of_nil {α β : Type} {p : α → Bool} {f : α → List β} {l : List α}
    (h : ∀ a ∈ l, p a = false → f a = []) : (l.filter p).flatMap f = l.flatMap f := by
  induction l with
  | nil => rfl
  | cons a l ih =>
    have hl := ih fun b hb => h b (List.mem_cons_of_mem _ hb)
    cases ha : p a with
    | true => simp [ha, hl]
    | false => simp [ha, hl, h a List.mem_cons_self ha]

theorem saved_ofBlock (keepsTrack : c.KeepsTrack) (header : BlockHeader) (txs : List Tx) :
    (ofBlock c header txs).saved = txs.flatMap (savedOutputs c header.slot) := by
  simp only [ofBlock]
  split
  · rfl
  · rename_i notAll
    exact flatMap_filter_of_nil fun tx _ h =>
      (nil_of_not_relevant header.slot keepsTrack (by simpa using notAll) h).1

theorem spent_ofBlock (keepsTrack : c.KeepsTrack) (header : BlockHeader) (txs : List Tx) :
    (ofBlock c header txs).spent = txs.flatMap (spentOutputs c) := by
  simp only [ofBlock]
  split
  · rfl
  · rename_i notAll
    exact flatMap_filter_of_nil fun tx _ h =>
      (nil_of_not_relevant header.slot keepsTrack (by simpa using notAll) h).2

end Confirmation

/-! ## One confirmation -/

/-- A confirmation that succeeds saves outputs and spends others, of transactions that are resolved
against the stored outputs. -/
theorem Indexer.confirm_stored {config : IndexerConfig} {s t : Indexer} {header : BlockHeader}
    {txs : List Tx} {c : Confirmation} {m : Utxos} (ready : s.Ready config)
    (stored : m.StoredIn s.database.contents)
    (storable : ∀ tx ∈ txs, ∀ o ∈ tx.outputs, o.Storable)
    (h : s.confirm header txs = (.ok c, t)) :
    ∃ txs', ResolvedTxs s.database.txOutput [] txs txs' ∧
      c = Confirmation.ofBlock config header txs' ∧
      Utxos.StoredIn (c.spent.foldl (Utxos.spend config.softDelete) (c.saved.foldl Utxos.save m))
        t.database.contents := by
  obtain ⟨txs', database, hresolved, rfl, hexecute, rfl⟩ := confirm_ok h
  rw [ready.writer_eq, ready.config_eq] at hexecute
  have resolved := resolveInputs_ok hresolved
  refine ⟨txs', resolved, by rw [ready.config_eq], ?_⟩
  have hs := Utxos.StoredIn.execute stored (fun op hop => ?_) hexecute
  · rw [BatchWriter.ops_of_pushed] at hs
    rw [ready.config_eq]
    exact hs
  · -- Only outputs of transactions of the block are added.
    rw [BatchWriter.ops_of_pushed] at hop
    simp only [Confirmation.ops, List.mem_cons, List.not_mem_nil, or_false] at hop
    rcases hop with rfl | rfl | rfl | rfl | rfl <;> try trivial
    intro o ho
    obtain ⟨tx', htx', -, ho⟩ := Confirmation.mem_saved_ofBlock.1 ho
    obtain ⟨p, hp, -, rfl⟩ := Confirmation.mem_savedOutputs.1 ho
    obtain ⟨tx, htx, before, hr⟩ := resolved.exists_of_mem htx'
    rw [hr.produced_eq] at hp
    obtain ⟨i, hi, rfl⟩ := Tx.mem_produced.1 hp
    exact (storable tx htx _ (List.getElem_mem hi)).withSlot header.slot

end ChainIndex
