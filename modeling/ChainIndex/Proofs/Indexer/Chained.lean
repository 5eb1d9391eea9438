import ChainIndex.Proofs.Indexer.Specification
import Mathlib.Data.List.Flatten

/-!
# Outputs that are spent in their own block

* `mem_filled`: a transaction of a block is filled in after those before it.
* `DistinctRefs`: outputs under references that name one of them each. Then an input gets the output of an
  earlier transaction of its block as it was retrieved (`DistinctRefs.fillInput_eq`), but what the block saves
  of it has the slot of the block (`DistinctRefs.eq_of_mem_saved`), and so has what the next block finds
  (`Indexer.utxos_of_confirm`).
* `chained_differs_in_slot`: so a spend in the block of the output carries what it would carry in the next
  block but for the slot.
-/

namespace ChainIndex

/-- The output as the block of a slot saves it. -/
def ReferencedOutput.savedAt (o : ReferencedOutput) (slot : UInt64) : ReferencedOutput :=
  { o with output := { o.output with slot } }

/-- Every reference names one of the outputs. -/
def DistinctRefs (outputs : List ReferencedOutput) : Prop := (outputs.map (·.ref)).Nodup

variable {m : Utxos}

/-- A transaction is filled in after those before it. -/
theorem mem_filled {txs : List Tx} {tx' : Tx} : tx' ∈ filled m txs ↔
    ∃ before tx after, txs = before ++ tx :: after ∧ tx' = tx.filled m before := by
  rw [filled, List.mem_mapIdx]
  constructor
  · rintro ⟨i, h, rfl⟩
    refine ⟨txs.take i, txs[i], txs.drop (i + 1), ?_, rfl⟩
    rw [← List.drop_eq_getElem_cons h, List.take_append_drop]
  · rintro ⟨before, tx, after, rfl, rfl⟩
    exact ⟨before.length, by simp, by simp⟩

/-- Filling in keeps the references of inputs. -/
theorem fillInput_ref (m : Utxos) (earlier : List Tx) (input : ReferencedOutput) :
    (fillInput m earlier input).ref = input.ref := by
  unfold fillInput
  split <;> rfl

namespace DistinctRefs

theorem eq {outputs : List ReferencedOutput} (h : DistinctRefs outputs) {o p : ReferencedOutput}
    (ho : o ∈ outputs) (hp : p ∈ outputs) (same : o.ref = p.ref) : o = p :=
  List.inj_on_of_nodup_map h ho hp same

theorem sublist {txs txs' : List Tx} (h : DistinctRefs (txs.flatMap Tx.produced)) (sub : txs'.Sublist txs) :
    DistinctRefs (txs'.flatMap Tx.produced) :=
  List.Nodup.sublist ((sub.flatMap Tx.produced).map _) h

theorem lastUnder_eq {outputs : List ReferencedOutput} (h : DistinctRefs outputs) {o : ReferencedOutput}
    (ho : o ∈ outputs) : lastUnder outputs o.ref = some o.output := by
  rw [lastUnder]
  cases found : outputs.reverse.find? (·.ref = o.ref) with
  | none => exact absurd (List.find?_eq_none.1 found o (List.mem_reverse.2 ho)) (by simp)
  | some p =>
    have same : p.ref = o.ref := by simpa using List.find?_some found
    rw [h.eq (List.mem_reverse.1 (List.mem_of_find?_eq_some found)) ho same]
    rfl

variable {o : ReferencedOutput}

/-- An input that is not known gets the output of an earlier transaction as it is. -/
theorem fillInput_eq {front : List Tx} (h : DistinctRefs (front.flatMap Tx.produced))
    (produced : o ∈ front.flatMap Tx.produced) {input : ReferencedOutput} (ref : input.ref = o.ref)
    (unknown : input.output.isUnknown = true) : fillInput m front input = o := by
  rw [fillInput, if_pos unknown, ref, h.lastUnder_eq produced]
  cases o
  cases input
  cases ref
  rfl

variable {config : IndexerConfig} {header : BlockHeader} {txs : List Tx}

/-- What a block saves under the reference of one of its outputs is that output with the slot of the block. -/
theorem eq_of_mem_saved (h : DistinctRefs (txs.flatMap Tx.produced)) (produced : o ∈ txs.flatMap Tx.produced)
    {p : ReferencedOutput} (saved : p ∈ (Confirmation.ofBlock config header (filled m txs)).saved)
    (ref : p.ref = o.ref) : p = o.savedAt header.slot := by
  obtain ⟨tx', filled, -, saved⟩ := Confirmation.mem_saved_ofBlock.1 saved
  obtain ⟨before, tx, after, rfl, rfl⟩ := mem_filled.1 filled
  obtain ⟨q, hq, -, rfl⟩ := Confirmation.mem_savedOutputs.1 saved
  have mem : q ∈ (before ++ tx :: after).flatMap Tx.produced :=
    List.mem_flatMap.2 ⟨tx, by simp, hq⟩
  rw [h.eq mem produced ref]
  rfl

/-- The transaction that produces an output stands where one is that produces it. -/
theorem exists_split {front rest before after : List Tx} {tx : Tx}
    (h : DistinctRefs ((front ++ rest).flatMap Tx.produced)) (produced : o ∈ front.flatMap Tx.produced)
    (split : front ++ rest = before ++ tx :: after) (own : o ∈ tx.produced) :
    ∃ after', front = before ++ tx :: after' := by
  -- Otherwise the output is produced in front of the transaction, and by it once more.
  have notBefore : ∀ more, before ≠ front ++ more := by
    rintro more rfl
    rw [split, List.flatMap_append, DistinctRefs, List.map_append, List.nodup_append] at h
    have first : o.ref ∈ ((front ++ more).flatMap Tx.produced).map (·.ref) :=
      List.mem_map_of_mem (by rw [List.flatMap_append]; exact List.mem_append_left _ produced)
    have second : o.ref ∈ ((tx :: after).flatMap Tx.produced).map (·.ref) :=
      List.mem_map_of_mem (by rw [List.flatMap_cons]; exact List.mem_append_left _ own)
    exact h.2.2 _ first _ second rfl
  obtain ⟨more, eq, -⟩ | ⟨more, rfl, eq⟩ := List.append_eq_append_iff.1 split
  · exact absurd eq (notBefore more)
  · cases more with
    | nil => exact absurd (by simp) (notBefore [])
    | cons tx' after' =>
      obtain ⟨rfl, -⟩ := List.cons.inj eq
      exact ⟨after', rfl⟩

/-- Whether an output is saved depends only on the transactions up to the one that produces it. -/
theorem mem_saved_of_front {front rest : List Tx} (h : DistinctRefs ((front ++ rest).flatMap Tx.produced))
    (produced : o ∈ front.flatMap Tx.produced) {p : ReferencedOutput}
    (saved : p ∈ (Confirmation.ofBlock config header (filled m (front ++ rest))).saved)
    (ref : p.ref = o.ref) (rest' : List Tx) :
    p ∈ (Confirmation.ofBlock config header (filled m (front ++ rest'))).saved := by
  have mem : o ∈ (front ++ rest).flatMap Tx.produced := by
    rw [List.flatMap_append]
    exact List.mem_append_left _ produced
  obtain ⟨tx', filled, stored, own⟩ := Confirmation.mem_saved_ofBlock.1 saved
  obtain ⟨before, tx, after, split, rfl⟩ := mem_filled.1 filled
  obtain ⟨q, hq, -, rfl⟩ := Confirmation.mem_savedOutputs.1 own
  obtain rfl : q = o := by
    refine h.eq ?_ mem ref
    rw [split]
    exact List.mem_flatMap.2 ⟨tx, by simp, hq⟩
  obtain ⟨after', rfl⟩ := h.exists_split produced split hq
  refine Confirmation.mem_saved_ofBlock.2 ⟨_, mem_filled.2 ⟨before, tx, after' ++ rest', ?_, rfl⟩, stored, own⟩
  rw [List.append_assoc, List.cons_append]

end DistinctRefs

namespace Indexer

variable {config : IndexerConfig} {s t : Indexer} {header : BlockHeader} {txs : List Tx} {c : Confirmation}

theorem exists_of_isOk (succeeds : (s.confirm header txs).1.isOk = true) :
    ∃ c, s.confirm header txs = (.ok c, (s.confirm header txs).2) := by
  cases answer : (s.confirm header txs).1 with
  | error e => rw [answer] at succeeds; cases succeeds
  | ok c => exact ⟨c, Prod.ext answer rfl⟩

/-- A saved output that no transaction of the block spends is stored with the slot of the block. -/
theorem utxos_of_confirm (ready : s.Ready config) (intact : s.database.contents.Intact)
    (storable : ∀ tx ∈ txs, tx.Storable) (h : s.confirm header txs = (.ok c, t))
    (distinct : DistinctRefs (txs.flatMap Tx.produced)) {o : ReferencedOutput}
    (produced : o ∈ txs.flatMap Tx.produced) (saved : ∃ p ∈ c.saved, p.ref = o.ref)
    (unspent : ∀ tx ∈ txs, ∀ io ∈ tx.inputs, io.ref ≠ o.ref) :
    t.database.contents.utxos o.ref = some (o.savedAt header.slot).output := by
  have contributes := confirm_filled ready intact h
  obtain ⟨-, -, -, left⟩ := confirm_stored ready intact.utxos_storedIn
    (fun tx htx => (storable tx htx).output) h
  subst contributes
  have notSpent :
      o.ref ∉ (Confirmation.ofBlock config header (filled s.database.contents.utxos txs)).spent := by
    intro spent
    obtain ⟨tx', filled, spent⟩ := Confirmation.exists_of_mem_spent spent
    obtain ⟨before, tx, after, rfl, rfl⟩ := mem_filled.1 filled
    obtain ⟨io', hio', -, ref⟩ := Confirmation.mem_spentOutputs.1 spent
    obtain ⟨io, hio, rfl⟩ := List.mem_map.1 hio'
    exact unspent tx (by simp) io hio ((fillInput_ref _ before io).symm.trans ref)
  rw [left.utxos_eq, Utxos.foldl_spend, if_neg notSpent]
  refine Utxos.foldl_save_eq_some (fun p hp ref => ?_) (.inr saved)
  rw [distinct.eq_of_mem_saved produced hp ref]

end Indexer

/-- Take the confirmation of a block in which a transaction spends what an earlier one produces, and no other
transaction of the block does, and whose outputs have distinct references. The input gets the output as it was
retrieved. What is saved of the output has the slot of the block instead; and this is what the input would get
if its transaction stood in the next block. So the two agree in everything but the slot, and in the slot if
the output was retrieved with it. -/
theorem chained_differs_in_slot {config : IndexerConfig} {s t : Indexer} {header : BlockHeader}
    {front rest : List Tx} {spender : Tx} {c : Confirmation} (ready : s.Ready config)
    (intact : s.database.contents.Intact) (few : (front ++ spender :: rest).length < UInt64.size)
    (storable : ∀ tx ∈ front ++ spender :: rest, tx.Storable)
    (distinct : DistinctRefs ((front ++ spender :: rest).flatMap Tx.produced))
    (h : s.confirm header (front ++ spender :: rest) = (.ok c, t)) {o input : ReferencedOutput}
    (produced : o ∈ front.flatMap Tx.produced) (ref : input.ref = o.ref)
    (unknown : input.output.isUnknown = true) :
    let m := s.database.contents.utxos
    c = .ofBlock config header (filled m (front ++ spender :: rest)) ∧
    spender.filled m front ∈ filled m (front ++ spender :: rest) ∧
    fillInput m front input = o ∧
    (∀ p ∈ c.saved, p.ref = o.ref → p = o.savedAt header.slot) ∧
    (o = o.savedAt header.slot ↔ o.output.slot = header.slot) ∧
    ∀ c₁ t₁ next more c₂ t₂, s.confirm header (front ++ rest) = (.ok c₁, t₁) →
      (∃ p ∈ c.saved, p.ref = o.ref) → (∀ tx ∈ front ++ rest, ∀ io ∈ tx.inputs, io.ref ≠ o.ref) →
      t₁.confirm next (spender :: more) = (.ok c₂, t₂) →
      let m₁ := t₁.database.contents.utxos
      c₂ = .ofBlock config next (filled m₁ (spender :: more)) ∧
      fillInput m₁ [] input = o.savedAt header.slot := by
  intro m
  have contributes := Indexer.confirm_filled ready intact h
  have inBlock : ∀ rest', o ∈ (front ++ rest').flatMap Tx.produced := fun rest' => by
    rw [List.flatMap_append]
    exact List.mem_append_left _ produced
  have fewer : (front ++ rest).Sublist (front ++ spender :: rest) :=
    (List.sublist_cons_self spender rest).append_left front
  refine ⟨contributes, mem_filled.2 ⟨front, spender, rest, rfl, rfl⟩, ?_, fun p saved same => ?_, ?_,
    fun c₁ t₁ next more c₂ t₂ without saved unspent later => ?_⟩
  · exact (distinct.sublist (List.sublist_append_left _ _)).fillInput_eq produced ref unknown
  · exact distinct.eq_of_mem_saved (inBlock _) (contributes ▸ saved) same
  · constructor
    · exact fun same => congrArg (·.output.slot) same
    · rintro same
      rw [ReferencedOutput.savedAt, ← same]
  · have storable₁ : ∀ tx ∈ front ++ rest, tx.Storable := fun tx htx => storable tx (fewer.subset htx)
    have contributes₁ := Indexer.confirm_filled ready intact without
    obtain ⟨-, intact₁⟩ := Indexer.storable_of_confirm ready intact
      (Nat.lt_of_le_of_lt fewer.length_le few) storable₁ without
    have saved₁ : ∃ p ∈ c₁.saved, p.ref = o.ref := by
      obtain ⟨p, saved, same⟩ := saved
      rw [contributes] at saved
      exact ⟨p, contributes₁ ▸ distinct.mem_saved_of_front produced saved same rest, same⟩
    have found := Indexer.utxos_of_confirm ready intact storable₁ without (distinct.sublist fewer)
      (inBlock rest) saved₁ unspent
    refine ⟨Indexer.confirm_filled (ready.confirm without) intact₁ later, ?_⟩
    rw [fillInput, if_pos unknown, ref, found]
    cases input
    cases ref
    rfl

namespace Fixture

/-- An indexer that follows everything, over an empty store. -/
def follower : Indexer :=
  { config := { confirmationDepth := 1 }, database := .new .memory, window := .empty 1 }

/-- A payment, retrieved without the slot of its block. -/
def payment : ReferencedOutput := ⟨⟨txHash 5 0, 0⟩, output "alice" 40⟩

def payingTx : Tx := tx 5 0 [] [payment.output]

def passingTx : Tx := tx 5 1 [payment.ref] [output "bob" 39]

end Fixture

open Fixture in
/-- The payment is spent in its block, and is resolved without a slot. In the next block it has one. -/
theorem chained_payment :
    ∃ c t c₁ t₁ c₂ t₂, follower.confirm (header 5) [payingTx, passingTx] = (.ok c, t) ∧
      follower.confirm (header 5) [payingTx] = (.ok c₁, t₁) ∧
      t₁.confirm (header 6) [passingTx] = (.ok c₂, t₂) ∧
      fillInput follower.database.contents.utxos [payingTx] (.unresolved payment.ref) = payment ∧
      fillInput t₁.database.contents.utxos [] (.unresolved payment.ref) = payment.savedAt 5 := by
  have output {address : String} (amount : UInt64) (short : (Utf8.encode address).length < UInt64.size) :
      ∀ o ∈ [output address amount], o.Storable :=
    List.forall_mem_singleton.2 (storable_output amount short)
  have storable : ∀ tx ∈ [payingTx, passingTx], tx.Storable := by
    simp only [List.forall_mem_cons]
    exact ⟨storable_tx _ _ (by decide) (by decide) (output 40 (by decide)),
      storable_tx _ _ (by decide) (by decide) (output 39 (by decide)), nofun⟩
  have ready : follower.Ready follower.config := ⟨rfl, by decide, rfl, rfl⟩
  have succeeds : (follower.confirm (header 5) [payingTx, passingTx]).1.isOk = true := by decide +kernel
  have succeeds₁ : (follower.confirm (header 5) [payingTx]).1.isOk = true := by decide +kernel
  have succeeds₂ : ((follower.confirm (header 5) [payingTx]).2.confirm (header 6) [passingTx]).1.isOk =
      true := by decide +kernel
  obtain ⟨c, block⟩ := Indexer.exists_of_isOk succeeds
  obtain ⟨c₁, without⟩ := Indexer.exists_of_isOk succeeds₁
  obtain ⟨c₂, later⟩ := Indexer.exists_of_isOk succeeds₂
  have few : ([payingTx] ++ passingTx :: []).length < UInt64.size := by decide
  have distinct : DistinctRefs (([payingTx] ++ passingTx :: []).flatMap Tx.produced) := by
    rw [DistinctRefs]
    decide
  have ref : (ReferencedOutput.unresolved payment.ref).ref = payment.ref := rfl
  obtain ⟨contributes, -, here, -, -, next⟩ := chained_differs_in_slot ready .empty few storable distinct
    block (List.mem_singleton_self payment) ref rfl
  have kept : ∃ p ∈ c.saved, p.ref = payment.ref := by
    rw [contributes]
    decide +kernel
  obtain ⟨-, there⟩ := next _ _ _ _ _ _ without kept (by decide) later
  exact ⟨c, _, c₁, _, c₂, _, block, without, later, here, there⟩

open Fixture in
/-- What is resolved in the block is not what is saved, nor what is resolved in the next block. -/
theorem not_saved_of_chained :
    ((follower.confirm (header 5) [payingTx, passingTx]).1.toOption.map fun c =>
      (c.txs.flatMap (·.inputs), c.saved.filter (·.ref = payment.ref))) =
        some ([payment], [payment.savedAt 5]) ∧
    (((follower.confirm (header 5) [payingTx]).2.confirm (header 6) [passingTx]).1.toOption.map fun c =>
      c.txs.flatMap (·.inputs)) = some [payment.savedAt 5] ∧
    payment ≠ payment.savedAt 5 := by
  decide +kernel

end ChainIndex
