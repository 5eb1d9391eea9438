import Mathlib.Data.List.Forall2
import ChainIndex.Indexer.Confirmation

/-!
# What looking up inputs finds

* `Tx.mem_produced`: the outputs of a transaction under their references; a reference names one of them.
* `Tx.SameUpToLookups`: transactions that differ at most in what their inputs held.
* `ResolvedTx`: a transaction with its inputs looked up, after some others of its block: an input gets the
  output of an earlier transaction of the block if there is one, and else the stored one.
* `resolveInputs_ok`: the transactions of a block that is looked up with success are resolved one by one.
* `resolveInputs_mono`: a look-up that fails less resolves them alike.
-/

namespace ChainIndex

variable {ε : Type}

/-! ## Outputs under their references -/

theorem Tx.mem_refsFrom {hash : TxHash} {index : UInt32} {outputs : List TxOutput}
    {o : ReferencedOutput} : o ∈ refsFrom hash index outputs ↔
      ∃ i, ∃ h : i < outputs.length, o = ⟨⟨hash, index + UInt32.ofNat i⟩, outputs[i]⟩ := by
  induction outputs generalizing index with
  | nil => simp [refsFrom]
  | cons output rest ih =>
    rw [refsFrom, List.mem_cons, ih]
    constructor
    · rintro (rfl | ⟨i, h, rfl⟩)
      · exact ⟨0, by simp, by simp⟩
      · refine ⟨i + 1, by simpa using h, ?_⟩
        simp [UInt32.ofNat_add, UInt32.add_assoc, UInt32.add_comm]
    · rintro ⟨i, h, rfl⟩
      cases i with
      | zero => exact .inl (by simp)
      | succ i =>
        refine .inr ⟨i, by simpa using h, ?_⟩
        simp [UInt32.ofNat_add, UInt32.add_assoc, UInt32.add_comm]

/-- The outputs of a transaction, under the indices that count from the first. -/
theorem Tx.mem_produced {tx : Tx} {o : ReferencedOutput} : o ∈ tx.produced ↔
    ∃ i, ∃ h : i < tx.outputs.length,
      o = ⟨⟨tx.hash, tx.firstOutputIndex + UInt32.ofNat i⟩, tx.outputs[i]⟩ := mem_refsFrom

theorem Tx.hash_of_mem_produced {tx : Tx} {o : ReferencedOutput} (h : o ∈ tx.produced) :
    o.ref.hash = tx.hash := by
  obtain ⟨i, hi, rfl⟩ := mem_produced.1 h
  rfl

/-- A transaction with at most 2^32 outputs gives each its own reference. -/
theorem Tx.eq_of_mem_produced {tx : Tx} (hlen : tx.outputs.length ≤ UInt32.size)
    {o p : ReferencedOutput} (ho : o ∈ tx.produced) (hp : p ∈ tx.produced) (h : o.ref = p.ref) :
    o = p := by
  obtain ⟨i, hi, rfl⟩ := mem_produced.1 ho
  obtain ⟨j, hj, rfl⟩ := mem_produced.1 hp
  have hindex : tx.firstOutputIndex + UInt32.ofNat i = tx.firstOutputIndex + UInt32.ofNat j :=
    congrArg OutputRef.index h
  have hij : i = j := by
    have htoNat := congrArg UInt32.toNat ((UInt32.add_right_inj _).1 hindex)
    rwa [UInt32.toNat_ofNat_of_lt' (by omega), UInt32.toNat_ofNat_of_lt' (by omega)] at htoNat
  subst hij
  rfl

/-! ## One transaction -/

theorem producedOutput?_eq_some {produced : List ReferencedOutput} {ref : OutputRef}
    {output : TxOutput} (h : producedOutput? produced ref = some output) :
    ⟨ref, output⟩ ∈ produced := by
  obtain ⟨o, hfind, rfl⟩ := Option.map_eq_some_iff.1 h
  have href : o.ref = ref := by simpa using List.find?_some hfind
  rw [← href]
  exact List.mem_of_find?_eq_some hfind

theorem producedOutput?_eq_none {produced : List ReferencedOutput} {ref : OutputRef}
    (h : producedOutput? produced ref = none) : ∀ o ∈ produced, o.ref ≠ ref := by
  have hfind := List.find?_eq_none.1 (Option.map_eq_none_iff.1 h)
  exact fun o ho href => hfind o ho (by simpa using href)

/-- What an input that was not looked up becomes, after outputs that the block has produced. -/
def ResolvedInput (lookup : OutputRef → Except ε TxOutput) (produced : List ReferencedOutput)
    (input resolved : ReferencedOutput) : Prop :=
  resolved.ref = input.ref ∧ (input.output.isUnknown = true →
    (⟨input.ref, resolved.output⟩ ∈ produced ∨
      (∀ o ∈ produced, o.ref ≠ input.ref) ∧ lookup input.ref = .ok resolved.output))

theorem resolveInput_ok {lookup : OutputRef → Except ε TxOutput} {produced : List ReferencedOutput}
    {input resolved : ReferencedOutput} (h : resolveInput lookup produced input = .ok resolved) :
    ResolvedInput lookup produced input resolved := by
  unfold resolveInput at h
  split at h
  · split at h
    · rename_i output hp
      cases h
      exact ⟨rfl, fun _ => .inl (producedOutput?_eq_some hp)⟩
    · rename_i hp
      cases hl : lookup input.ref with
      | error e => rw [hl] at h; cases h
      | ok output =>
        rw [hl] at h
        cases h
        exact ⟨rfl, fun _ => .inr ⟨producedOutput?_eq_none hp, hl⟩⟩
  · rename_i known
    cases h
    exact ⟨rfl, fun unknown => absurd unknown known⟩

theorem map_eq_of_mapM_eq_ok {α β : Type} {f : α → Except ε β} {as : List α} {bs : List β}
    (h : as.mapM f = .ok bs) : as.map f = bs.map .ok := by
  induction as generalizing bs with
  | nil => cases h; rfl
  | cons a as ih =>
    rw [List.mapM_cons] at h
    cases ha : f a with
    | error e => rw [ha] at h; cases h
    | ok b =>
      cases has : as.mapM f with
      | error e => rw [ha, has] at h; cases h
      | ok bs =>
        rw [ha, has] at h
        cases h
        rw [List.map_cons, List.map_cons, ha, ih has]

/-- What a function keeps of every element, it keeps of the list. -/
theorem map_eq_of_map_eq_map_ok {α β γ : Type} {f : α → Except ε β} {g : β → γ} {g' : α → γ}
    (keeps : ∀ a b, f a = .ok b → g b = g' a) {as : List α} {bs : List β}
    (h : as.map f = bs.map .ok) : bs.map g = as.map g' := by
  induction as generalizing bs with
  | nil => rw [List.map_eq_nil_iff.1 h.symm]; rfl
  | cons a as ih =>
    cases bs with
    | nil => cases h
    | cons b bs =>
      obtain ⟨ha, has⟩ := List.cons.inj h
      rw [List.map_cons, List.map_cons, keeps a b ha, ih has]

/-- A transaction that differs from another one at most in what its inputs held. -/
structure Tx.SameUpToLookups (tx tx' : Tx) : Prop where
  eq_inputs : tx' = { tx with inputs := tx'.inputs }
  refs_eq : tx'.inputs.map (·.ref) = tx.inputs.map (·.ref)

/-- A transaction with its inputs looked up, after outputs that the block has produced. -/
structure ResolvedTx (lookup : OutputRef → Except ε TxOutput) (produced : List ReferencedOutput)
    (tx resolved : Tx) : Prop extends tx.SameUpToLookups resolved where
  inputs_of : ∀ io ∈ tx.inputs, ∃ io' ∈ resolved.inputs, ResolvedInput lookup produced io io'
  of_inputs : ∀ io' ∈ resolved.inputs, ∃ io ∈ tx.inputs, ResolvedInput lookup produced io io'

theorem ResolvedTx.produced_eq {lookup : OutputRef → Except ε TxOutput}
    {produced : List ReferencedOutput} {tx resolved : Tx}
    (h : ResolvedTx lookup produced tx resolved) : resolved.produced = tx.produced := by
  rw [h.eq_inputs]
  rfl

theorem resolvedTx_of_mapM {lookup : OutputRef → Except ε TxOutput}
    {produced inputs : List ReferencedOutput} {tx : Tx}
    (h : tx.inputs.mapM (resolveInput lookup produced) = .ok inputs) :
    ResolvedTx lookup produced tx { tx with inputs } := by
  have hmap := map_eq_of_mapM_eq_ok h
  have refs : inputs.map (·.ref) = tx.inputs.map (·.ref) :=
    map_eq_of_map_eq_map_ok (fun io io' hr => (resolveInput_ok hr).1) hmap
  refine ⟨⟨rfl, refs⟩, fun io hio => ?_, fun io' hio' => ?_⟩
  · have hmem : resolveInput lookup produced io ∈ inputs.map .ok := by
      rw [← hmap]; exact List.mem_map_of_mem hio
    obtain ⟨io', hio', heq⟩ := List.mem_map.1 hmem
    exact ⟨io', hio', resolveInput_ok heq.symm⟩
  · have hmem : (Except.ok io' : Except ε ReferencedOutput) ∈
        tx.inputs.map (resolveInput lookup produced) := by
      rw [hmap]; exact List.mem_map_of_mem hio'
    obtain ⟨io, hio, heq⟩ := List.mem_map.1 hmem
    exact ⟨io, hio, resolveInput_ok heq⟩

/-! ## A block -/

/-- The transactions of a block, each resolved after those before it. -/
inductive ResolvedTxs (lookup : OutputRef → Except ε TxOutput) :
    List ReferencedOutput → List Tx → List Tx → Prop
  | nil (produced : List ReferencedOutput) : ResolvedTxs lookup produced [] []
  | cons {produced : List ReferencedOutput} {tx tx' : Tx} {txs txs' : List Tx}
      (head : ResolvedTx lookup produced tx tx')
      (rest : ResolvedTxs lookup (tx.produced.reverse ++ produced) txs txs') :
      ResolvedTxs lookup produced (tx :: txs) (tx' :: txs')

theorem resolveFrom_ok {lookup : OutputRef → Except ε TxOutput} {produced : List ReferencedOutput}
    {txs txs' : List Tx} (h : resolveFrom lookup produced txs = .ok txs') :
    ResolvedTxs lookup produced txs txs' := by
  induction txs generalizing produced txs' with
  | nil => cases h; exact .nil produced
  | cons tx txs ih =>
    rw [resolveFrom] at h
    cases hin : tx.inputs.mapM (resolveInput lookup produced) with
    | error e => rw [hin] at h; cases h
    | ok inputs =>
      cases hrest : resolveFrom lookup (tx.produced.reverse ++ produced) txs with
      | error e => rw [hin] at h; simp only [Bind.bind, Except.bind, hrest] at h; cases h
      | ok rest =>
        rw [hin] at h
        simp only [Bind.bind, Except.bind, hrest] at h
        cases h
        exact .cons (resolvedTx_of_mapM hin) (ih hrest)

namespace ResolvedTxs

variable {lookup : OutputRef → Except ε TxOutput} {produced : List ReferencedOutput}
  {txs txs' : List Tx}

/-- Every resolved transaction comes from one of the block. -/
theorem exists_of_mem (h : ResolvedTxs lookup produced txs txs') {tx' : Tx} (hmem : tx' ∈ txs') :
    ∃ tx ∈ txs, ∃ before, ResolvedTx lookup before tx tx' := by
  induction h with
  | nil => cases hmem
  | @cons produced tx _ _ _ head _ ih =>
    rcases List.mem_cons.1 hmem with rfl | hmem
    · exact ⟨tx, List.mem_cons_self, produced, head⟩
    · obtain ⟨tx, htx, hr⟩ := ih hmem
      exact ⟨tx, List.mem_cons_of_mem _ htx, hr⟩

/-- A transaction is resolved after the outputs of those before it. -/
theorem exists_of_append (h : ResolvedTxs lookup produced txs txs') {front rest : List Tx} {tx : Tx}
    (htxs : txs = front ++ tx :: rest) : ∃ tx' ∈ txs',
      ResolvedTx lookup ((front.flatMap Tx.produced).reverse ++ produced) tx tx' := by
  induction h generalizing front with
  | nil => simp at htxs
  | @cons produced head head' _ _ hhead _ ih =>
    cases front with
    | nil =>
      cases htxs
      exact ⟨head', List.mem_cons_self, hhead⟩
    | cons first front =>
      cases htxs
      obtain ⟨tx', hmem, hr⟩ := ih rfl
      refine ⟨tx', List.mem_cons_of_mem _ hmem, ?_⟩
      simpa [List.append_assoc] using hr

/-- The transactions of a block and the resolved ones correspond in order. -/
theorem forall₂ (h : ResolvedTxs lookup produced txs txs') :
    List.Forall₂ (fun tx tx' => ∃ front rest, txs = front ++ tx :: rest ∧
      ResolvedTx lookup ((front.flatMap Tx.produced).reverse ++ produced) tx tx') txs txs' := by
  induction h with
  | nil => exact .nil
  | @cons produced tx _ txs _ head _ ih =>
    refine .cons ⟨[], txs, rfl, head⟩ (ih.imp fun later later' hl => ?_)
    obtain ⟨front, rest, rfl, hr⟩ := hl
    exact ⟨tx :: front, rest, rfl, by simpa [List.append_assoc] using hr⟩

end ResolvedTxs

/-! ## Other look-ups -/

theorem mapM_ok_mono {α β : Type} {f g : α → Except ε β} (mono : ∀ a b, f a = .ok b → g a = .ok b)
    {as : List α} {bs : List β} (h : as.mapM f = .ok bs) : as.mapM g = .ok bs := by
  induction as generalizing bs with
  | nil => exact h
  | cons a as ih =>
    rw [List.mapM_cons] at h ⊢
    cases ha : f a with
    | error e => rw [ha] at h; cases h
    | ok b =>
      cases has : as.mapM f with
      | error e => rw [ha, has] at h; cases h
      | ok rest =>
        rw [ha, has] at h
        rw [mono a b ha, ih has]
        exact h

section Mono

variable {lookup lookup' : OutputRef → Except ε TxOutput}
  (mono : ∀ ref output, lookup ref = .ok output → lookup' ref = .ok output)

include mono

theorem resolveInput_mono {produced : List ReferencedOutput} {input resolved : ReferencedOutput}
    (h : resolveInput lookup produced input = .ok resolved) :
    resolveInput lookup' produced input = .ok resolved := by
  unfold resolveInput at h ⊢
  split at h
  · rename_i unknown
    rw [if_pos unknown]
    split at h
    · exact h
    · cases hl : lookup input.ref with
      | error e => rw [hl] at h; cases h
      | ok output =>
        rw [hl] at h
        rw [mono _ _ hl]
        exact h
  · rename_i known
    rw [if_neg known]
    exact h

theorem resolveFrom_mono {produced : List ReferencedOutput} {txs txs' : List Tx}
    (h : resolveFrom lookup produced txs = .ok txs') :
    resolveFrom lookup' produced txs = .ok txs' := by
  induction txs generalizing produced txs' with
  | nil => exact h
  | cons tx txs ih =>
    rw [resolveFrom] at h ⊢
    cases hin : tx.inputs.mapM (resolveInput lookup produced) with
    | error e => rw [hin] at h; cases h
    | ok inputs =>
      cases hrest : resolveFrom lookup (tx.produced.reverse ++ produced) txs with
      | error e => rw [hin] at h; simp only [Bind.bind, Except.bind, hrest] at h; cases h
      | ok rest =>
        rw [hin] at h
        rw [mapM_ok_mono (fun _ _ => resolveInput_mono mono) hin]
        simp only [Bind.bind, Except.bind, hrest, ih hrest] at h ⊢
        exact h

/-- What is looked up with success is looked up alike by whatever finds the same and fails less. -/
theorem resolveInputs_mono {txs txs' : List Tx} (h : resolveInputs lookup txs = .ok txs') :
    resolveInputs lookup' txs = .ok txs' := resolveFrom_mono mono h

end Mono

theorem resolveInputs_ok {lookup : OutputRef → Except ε TxOutput} {txs txs' : List Tx}
    (h : resolveInputs lookup txs = .ok txs') : ResolvedTxs lookup [] txs txs' :=
  resolveFrom_ok h

end ChainIndex
