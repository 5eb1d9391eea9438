import ChainIndex.Fixture.Basic
import ChainIndex.Proofs.Indexer.Outputs

/-!
# The listed outputs are the unspent ones

* `SourceBlock`: a block with its transactions as they arrive; `SourceBlock.Creates` and
  `SourceBlock.Consumes` say which outputs it creates and which references it consumes.
* `SourceBlock.Consistent`: blocks whose transactions have different hashes and consume only what earlier
  ones created, or what is older than the blocks. `SourceBlock.Ordered` is all of that but what it says of
  marks.
* `ConfirmedChain`: a store in which blocks were confirmed one after the other, as announced headers do
  (`ConfirmedChain.forwarded`).
* `Tally`: what such a store holds of the created outputs. A confirmation keeps it (`Tally.confirm`): an
  input is found because the output that it consumes was saved before.
* `outputsAt_eq_unspent`: so the outputs listed for an address are those created for it and not consumed.
-/

namespace ChainIndex

/-- A block with its transactions as they arrive. -/
structure SourceBlock where
  header : BlockHeader
  txs : List Tx

namespace SourceBlock

/-- The block creates an output: one of a transaction of it, under the hash of the transaction and the
index that counts from the first, with the slot of the block. -/
def Creates (b : SourceBlock) (o : ReferencedOutput) : Prop :=
  ∃ tx ∈ b.txs, ∃ i, ∃ h : i < tx.outputs.length,
    o = ⟨⟨tx.hash, tx.firstOutputIndex + UInt32.ofNat i⟩,
      { tx.outputs[i] with slot := b.header.slot }⟩

/-- A transaction of the block consumes the output under a reference. -/
def Consumes (b : SourceBlock) (r : OutputRef) : Prop :=
  ∃ tx ∈ b.txs, ∃ io ∈ tx.inputs, io.ref = r

/-- The transactions of blocks, in the order of the chain. -/
def allTxs (blocks : List SourceBlock) : List Tx := blocks.flatMap (·.txs)

/-- Blocks of one ledger. -/
structure Consistent (blocks : List SourceBlock) : Prop where
  distinct : (allTxs blocks).Pairwise fun tx later => tx.hash ≠ later.hash
  /-- A transaction consumes no output of a later one. -/
  earlier : (allTxs blocks).Pairwise fun tx later => ∀ io ∈ tx.inputs, io.ref.hash ≠ later.hash
  /-- And none of its own. -/
  notOwn : ∀ tx ∈ allTxs blocks, ∀ io ∈ tx.inputs, io.ref.hash ≠ tx.hash
  unresolved : ∀ tx ∈ allTxs blocks, ∀ io ∈ tx.inputs, io.output.isUnknown = true
  unused : ∀ tx ∈ allTxs blocks, ∀ o ∈ tx.outputs, o.isUsed = false
  /-- There are no more outputs than indices. -/
  indexed : ∀ tx ∈ allTxs blocks, tx.outputs.length ≤ UInt32.size
  storable : ∀ tx ∈ allTxs blocks, ∀ o ∈ tx.outputs, o.Storable

/-- Blocks of a ledger whose outputs may arrive marked as used. -/
structure Ordered (blocks : List SourceBlock) : Prop where
  distinct : (allTxs blocks).Pairwise fun tx later => tx.hash ≠ later.hash
  earlier : (allTxs blocks).Pairwise fun tx later => ∀ io ∈ tx.inputs, io.ref.hash ≠ later.hash
  notOwn : ∀ tx ∈ allTxs blocks, ∀ io ∈ tx.inputs, io.ref.hash ≠ tx.hash
  unresolved : ∀ tx ∈ allTxs blocks, ∀ io ∈ tx.inputs, io.output.isUnknown = true
  indexed : ∀ tx ∈ allTxs blocks, tx.outputs.length ≤ UInt32.size
  storable : ∀ tx ∈ allTxs blocks, ∀ o ∈ tx.outputs, o.Storable

theorem Consistent.ordered {blocks : List SourceBlock} (h : Consistent blocks) : Ordered blocks :=
  ⟨h.distinct, h.earlier, h.notOwn, h.unresolved, h.indexed, h.storable⟩

theorem creates_iff {b : SourceBlock} {o : ReferencedOutput} : b.Creates o ↔
    ∃ tx ∈ b.txs, ∃ p ∈ tx.produced,
      o = { p with output := { p.output with slot := b.header.slot } } := by
  constructor
  · rintro ⟨tx, htx, i, hi, rfl⟩
    exact ⟨tx, htx, _, Tx.mem_produced.2 ⟨i, hi, rfl⟩, rfl⟩
  · rintro ⟨tx, htx, p, hp, rfl⟩
    obtain ⟨i, hi, rfl⟩ := Tx.mem_produced.1 hp
    exact ⟨tx, htx, i, hi, rfl⟩

instance (b : SourceBlock) (o : ReferencedOutput) : Decidable (b.Creates o) :=
  decidable_of_iff _ creates_iff.symm

instance (b : SourceBlock) (r : OutputRef) : Decidable (b.Consumes r) :=
  inferInstanceAs (Decidable (∃ tx ∈ b.txs, ∃ io ∈ tx.inputs, io.ref = r))

theorem Creates.exists_hash {b : SourceBlock} {o : ReferencedOutput} (h : b.Creates o) :
    ∃ tx ∈ b.txs, o.ref.hash = tx.hash := by
  obtain ⟨tx, htx, i, hi, rfl⟩ := h
  exact ⟨tx, htx, rfl⟩

theorem allTxs_append_singleton (blocks : List SourceBlock) (b : SourceBlock) :
    allTxs (blocks ++ [b]) = allTxs blocks ++ b.txs := by
  simp [allTxs]

namespace Ordered

variable {blocks : List SourceBlock} {b : SourceBlock}

/-- The blocks before the last one. -/
theorem front (h : Ordered (blocks ++ [b])) : Ordered blocks := by
  have hsub : ∀ tx ∈ allTxs blocks, tx ∈ allTxs (blocks ++ [b]) := fun tx htx => by
    rw [allTxs_append_singleton]; exact List.mem_append_left _ htx
  have distinct := h.distinct
  have earlier := h.earlier
  rw [allTxs_append_singleton] at distinct earlier
  exact ⟨(List.pairwise_append.1 distinct).1, (List.pairwise_append.1 earlier).1,
    fun tx htx => h.notOwn tx (hsub tx htx), fun tx htx => h.unresolved tx (hsub tx htx),
    fun tx htx => h.indexed tx (hsub tx htx), fun tx htx => h.storable tx (hsub tx htx)⟩

theorem mem_of_mem_last {tx : Tx} (htx : tx ∈ b.txs) : tx ∈ allTxs (blocks ++ [b]) := by
  rw [allTxs_append_singleton]; exact List.mem_append_right _ htx

/-- Neither hashes nor inputs of the blocks before name a transaction of the last one. -/
theorem ne_last (h : Ordered (blocks ++ [b])) {tx later : Tx} (htx : tx ∈ allTxs blocks)
    (hlater : later ∈ b.txs) :
    tx.hash ≠ later.hash ∧ ∀ io ∈ tx.inputs, io.ref.hash ≠ later.hash := by
  have distinct := h.distinct
  have earlier := h.earlier
  rw [allTxs_append_singleton] at distinct earlier
  exact ⟨(List.pairwise_append.1 distinct).2.2 tx htx later hlater,
    (List.pairwise_append.1 earlier).2.2 tx htx later hlater⟩

/-- An input names neither its own transaction nor a later one of the block. -/
theorem ne_later (h : Ordered (blocks ++ [b])) {front rest : List Tx} {tx later : Tx}
    (htxs : b.txs = front ++ tx :: rest) (hlater : later ∈ tx :: rest) {io : ReferencedOutput}
    (hio : io ∈ tx.inputs) : io.ref.hash ≠ later.hash := by
  rcases List.mem_cons.1 hlater with rfl | hlater
  · exact h.notOwn _ (mem_of_mem_last (by simp [htxs])) io hio
  · have earlier := h.earlier
    rw [allTxs_append_singleton, htxs] at earlier
    have hrest := (List.pairwise_append.1 (List.pairwise_append.1 earlier).2.1).2.1
    exact (List.pairwise_cons.1 hrest).1 later hlater io hio

/-- So a transaction of the block that it names comes before. -/
theorem mem_front (h : Ordered (blocks ++ [b])) {front rest : List Tx} {tx producer : Tx}
    (htxs : b.txs = front ++ tx :: rest) (hproducer : producer ∈ b.txs) {io : ReferencedOutput}
    (hio : io ∈ tx.inputs) (hash : io.ref.hash = producer.hash) : producer ∈ front := by
  rw [htxs] at hproducer
  exact (List.mem_append.1 hproducer).resolve_right fun hlater => h.ne_later htxs hlater hio hash

/-- Transactions of the last block with one hash are one. -/
theorem eq_of_hash_eq (h : Ordered (blocks ++ [b])) {tx later : Tx} (htx : tx ∈ b.txs)
    (hlater : later ∈ b.txs) (hash : tx.hash = later.hash) : tx = later := by
  have distinct := h.distinct
  rw [allTxs_append_singleton] at distinct
  have hlast := (List.pairwise_append.1 distinct).2.1
  generalize b.txs = txs at htx hlater hlast
  induction txs with
  | nil => cases htx
  | cons head rest ih =>
    rw [List.pairwise_cons] at hlast
    rcases List.mem_cons.1 htx with rfl | hrest <;> rcases List.mem_cons.1 hlater with rfl | hrest'
    · rfl
    · exact absurd hash (hlast.1 later hrest')
    · exact absurd hash.symm (hlast.1 tx hrest)
    · exact ih hrest hrest' hlast.2

/-- A reference names one output of the last block. -/
theorem produced_unique (h : Ordered (blocks ++ [b])) {tx later : Tx} (htx : tx ∈ b.txs)
    (hlater : later ∈ b.txs) {o p : ReferencedOutput} (ho : o ∈ tx.produced)
    (hp : p ∈ later.produced) (href : o.ref = p.ref) : o = p := by
  have hash : tx.hash = later.hash := by
    rw [← Tx.hash_of_mem_produced ho, ← Tx.hash_of_mem_produced hp, href]
  cases h.eq_of_hash_eq htx hlater hash
  exact Tx.eq_of_mem_produced (h.indexed tx (mem_of_mem_last htx)) ho hp href

theorem creates_unique (h : Ordered (blocks ++ [b])) {o p : ReferencedOutput}
    (ho : b.Creates o) (hp : b.Creates p) (href : o.ref = p.ref) : o = p := by
  obtain ⟨tx, htx, o', ho', rfl⟩ := creates_iff.1 ho
  obtain ⟨later, hlater, p', hp', rfl⟩ := creates_iff.1 hp
  cases h.produced_unique htx hlater ho' hp' href
  rfl

end Ordered

/-- Some block creates the output. -/
def Created (blocks : List SourceBlock) (o : ReferencedOutput) : Prop := ∃ b ∈ blocks, b.Creates o

/-- Some block consumes the output under the reference. -/
def Consumed (blocks : List SourceBlock) (r : OutputRef) : Prop := ∃ b ∈ blocks, b.Consumes r

instance (blocks : List SourceBlock) (o : ReferencedOutput) : Decidable (Created blocks o) :=
  inferInstanceAs (Decidable (∃ b ∈ blocks, b.Creates o))

instance (blocks : List SourceBlock) (r : OutputRef) : Decidable (Consumed blocks r) :=
  inferInstanceAs (Decidable (∃ b ∈ blocks, b.Consumes r))

theorem created_append_singleton {blocks : List SourceBlock} {b : SourceBlock}
    {o : ReferencedOutput} : Created (blocks ++ [b]) o ↔ Created blocks o ∨ b.Creates o := by
  simp [Created, or_and_right, exists_or]

theorem consumed_append_singleton {blocks : List SourceBlock} {b : SourceBlock} {r : OutputRef} :
    Consumed (blocks ++ [b]) r ↔ Consumed blocks r ∨ b.Consumes r := by
  simp [Consumed, or_and_right, exists_or]

theorem Created.exists_hash {blocks : List SourceBlock} {o : ReferencedOutput}
    (h : Created blocks o) : ∃ tx ∈ allTxs blocks, o.ref.hash = tx.hash := by
  obtain ⟨b, hb, creates⟩ := h
  obtain ⟨tx, htx, hash⟩ := creates.exists_hash
  exact ⟨tx, List.mem_flatMap.2 ⟨b, hb, htx⟩, hash⟩

/-- An output created before is not named by the last block's hashes. -/
theorem Ordered.ne_of_created {blocks : List SourceBlock} {b : SourceBlock}
    (h : Ordered (blocks ++ [b])) {o : ReferencedOutput} (ho : Created blocks o) {tx : Tx}
    (htx : tx ∈ b.txs) : o.ref.hash ≠ tx.hash := by
  obtain ⟨earlier, hearlier, hash⟩ := ho.exists_hash
  rw [hash]
  exact (h.ne_last hearlier htx).1

/-- What the last block creates was not consumed before. -/
theorem Ordered.not_consumed {blocks : List SourceBlock} {b : SourceBlock}
    (h : Ordered (blocks ++ [b])) {o : ReferencedOutput} (ho : b.Creates o) :
    ¬ Consumed blocks o.ref := by
  rintro ⟨b', hb', tx', htx', io, hio, href⟩
  obtain ⟨tx, htx, hash⟩ := ho.exists_hash
  refine (h.ne_last (List.mem_flatMap.2 ⟨b', hb', htx'⟩) htx).2 io hio ?_
  rw [href, hash]

theorem Consistent.unused_of_created {blocks : List SourceBlock} (h : Consistent blocks)
    (o : ReferencedOutput) (ho : Created blocks o) : o.output.isUsed = false := by
  obtain ⟨b, hb, tx, htx, i, hi, rfl⟩ := ho
  exact h.unused tx (List.mem_flatMap.2 ⟨b, hb, htx⟩) tx.outputs[i] (List.getElem_mem hi)

end SourceBlock

open SourceBlock

/-! ## What is stored of the created outputs -/

/-- The outputs of kept addresses that blocks created: those that were not consumed as they were created,
the others marked as used or gone; and nothing else. -/
structure Tally (config : IndexerConfig) (blocks : List SourceBlock) (m : Utxos) : Prop where
  unspent : ∀ o, Created blocks o → config.keepsAddress o.output.address = true →
    ¬ Consumed blocks o.ref → m o.ref = some o.output
  spent : ∀ o, Created blocks o → config.keepsAddress o.output.address = true →
    Consumed blocks o.ref → m o.ref = if config.softDelete then some o.output.used else none
  known : ∀ r output, m r = some output →
    ∃ o, Created blocks o ∧ config.keepsAddress o.output.address = true ∧ o.ref = r

/-- Before the first block nothing is stored. -/
theorem Tally.empty (config : IndexerConfig) : Tally config [] fun _ => none where
  unspent o ho := by obtain ⟨b, hb, -⟩ := ho; cases hb
  spent o ho := by obtain ⟨b, hb, -⟩ := ho; cases hb
  known r output h := by cases h

/-- What is stored is an output as it was created, not consumed, or a consumed one marked as used. -/
theorem Tally.cases {config : IndexerConfig} {blocks : List SourceBlock} {m : Utxos}
    (h : Tally config blocks m) {o : ReferencedOutput} (hm : m o.ref = some o.output) :
    (Created blocks o ∧ config.keepsAddress o.output.address = true ∧ ¬ Consumed blocks o.ref) ∨
      ∃ p, Created blocks p ∧ Consumed blocks p.ref ∧ p.ref = o.ref ∧ config.softDelete = true ∧
        o.output = p.output.used := by
  obtain ⟨p, hp, keeps, href⟩ := h.known o.ref o.output hm
  rw [← href] at hm
  by_cases hcons : Consumed blocks p.ref
  · rw [h.spent p hp keeps hcons] at hm
    cases soft : config.softDelete with
    | false => simp [soft] at hm
    | true => exact .inr ⟨p, hp, hcons, href, rfl, by simpa [soft] using hm.symm⟩
  · rw [h.unspent p hp keeps hcons] at hm
    have hpo : p = o := by
      cases p; cases o
      simp_all
    subst hpo
    exact .inl ⟨hp, keeps, hcons⟩

section Confirmation

variable {config : IndexerConfig} {blocks : List SourceBlock} {b : SourceBlock}
  {lookup : OutputRef → Except StoreError TxOutput} {txs' : List Tx}

theorem mem_saved (keepsTrack : config.KeepsTrack) (resolved : ResolvedTxs lookup [] b.txs txs')
    {o : ReferencedOutput} : o ∈ (Confirmation.ofBlock config b.header txs').saved ↔
      b.Creates o ∧ config.keepsAddress o.output.address = true := by
  rw [Confirmation.saved_ofBlock keepsTrack, List.mem_flatMap, creates_iff]
  constructor
  · rintro ⟨tx', htx', ho⟩
    obtain ⟨p, hp, keeps, rfl⟩ := Confirmation.mem_savedOutputs.1 ho
    obtain ⟨tx, htx, before, hr⟩ := resolved.exists_of_mem htx'
    exact ⟨⟨tx, htx, p, hr.produced_eq ▸ hp, rfl⟩, keeps⟩
  · rintro ⟨⟨tx, htx, p, hp, rfl⟩, keeps⟩
    obtain ⟨front, rest, htxs⟩ := List.append_of_mem htx
    obtain ⟨tx', htx', hr⟩ := resolved.exists_of_append htxs
    exact ⟨tx', htx', Confirmation.mem_savedOutputs.2 ⟨p, hr.produced_eq.symm ▸ hp, keeps, rfl⟩⟩

theorem consumes_of_mem_spent (resolved : ResolvedTxs lookup [] b.txs txs') {r : OutputRef}
    (h : r ∈ (Confirmation.ofBlock config b.header txs').spent) : b.Consumes r := by
  obtain ⟨tx', htx', h⟩ := Confirmation.exists_of_mem_spent h
  obtain ⟨io', hio', -, rfl⟩ := Confirmation.mem_spentOutputs.1 h
  obtain ⟨tx, htx, before, hr⟩ := resolved.exists_of_mem htx'
  obtain ⟨io, hio, hinput⟩ := hr.of_inputs io' hio'
  exact ⟨tx, htx, io, hio, hinput.1.symm⟩

/-- A consumed reference is looked up among the outputs of earlier transactions of the block, and else
in the store; if what is found is of a kept address, it is spent. -/
theorem found_of_consumes (keepsTrack : config.KeepsTrack)
    (ordered : Ordered (blocks ++ [b])) (resolved : ResolvedTxs lookup [] b.txs txs')
    {r : OutputRef} (h : b.Consumes r) : ∃ output,
      ((∃ tx ∈ b.txs, ⟨r, output⟩ ∈ tx.produced) ∨
        (∀ o, b.Creates o → o.ref ≠ r) ∧ lookup r = .ok output) ∧
      (config.keepsAddress output.address = true →
        r ∈ (Confirmation.ofBlock config b.header txs').spent) := by
  obtain ⟨tx, htx, io, hio, rfl⟩ := h
  obtain ⟨front, rest, htxs⟩ := List.append_of_mem htx
  obtain ⟨tx', htx', hr⟩ := resolved.exists_of_append htxs
  obtain ⟨io', hio', href, hfound⟩ := hr.inputs_of io hio
  refine ⟨io'.output, ?_, fun keeps => ?_⟩
  · rw [List.append_nil] at hfound
    have unknown := ordered.unresolved tx (Ordered.mem_of_mem_last htx) io hio
    rcases hfound unknown with hmem | ⟨habsent, hlookup⟩
    · obtain ⟨earlier, hearlier, hp⟩ := List.mem_flatMap.1 (List.mem_reverse.1 hmem)
      exact .inl ⟨earlier, by simp [htxs, hearlier], hp⟩
    · refine .inr ⟨fun o ho heq => ?_, hlookup⟩
      -- A transaction of the block that creates it comes before, where it was looked for.
      obtain ⟨creator, hcreator, p, hp, rfl⟩ := creates_iff.1 ho
      have hhash : io.ref.hash = creator.hash := by
        rw [← Tx.hash_of_mem_produced hp, ← heq]
      have hfront := ordered.mem_front htxs hcreator hio hhash
      exact habsent p (List.mem_reverse.2 (List.mem_flatMap.2 ⟨creator, hfront, hp⟩)) heq
  · rw [Confirmation.spent_ofBlock keepsTrack, List.mem_flatMap]
    exact ⟨tx', htx', Confirmation.mem_spentOutputs.2 ⟨io', hio', keeps, href⟩⟩

/-- The block creates what it saves. -/
theorem creates_of_mem_saved (resolved : ResolvedTxs lookup [] b.txs txs') {o : ReferencedOutput}
    (h : o ∈ (Confirmation.ofBlock config b.header txs').saved) : b.Creates o := by
  obtain ⟨tx', htx', -, ho⟩ := Confirmation.mem_saved_ofBlock.1 h
  obtain ⟨p, hp, -, rfl⟩ := Confirmation.mem_savedOutputs.1 ho
  obtain ⟨tx, htx, before, hr⟩ := resolved.exists_of_mem htx'
  exact creates_iff.2 ⟨tx, htx, p, hr.produced_eq ▸ hp, rfl⟩

/-- Saving the outputs of the block leaves those of the transactions before it. -/
theorem foldl_saved_of_front (ordered : Ordered (blocks ++ [b]))
    (resolved : ResolvedTxs lookup [] b.txs txs') (m : Utxos) {tx : Tx} (htx : tx ∈ allTxs blocks)
    {r : OutputRef} (hash : r.hash = tx.hash) :
    (Confirmation.ofBlock config b.header txs').saved.foldl Utxos.save m r = m r := by
  refine Utxos.foldl_save_of_forall_ne fun p hp href => ?_
  obtain ⟨later, hlater, hash'⟩ := (creates_of_mem_saved resolved hp).exists_hash
  refine (ordered.ne_last htx hlater).1 ?_
  rw [← hash, ← href, hash']

/-- And it sets its own. -/
theorem foldl_saved_of_mem (ordered : Ordered (blocks ++ [b]))
    (resolved : ResolvedTxs lookup [] b.txs txs') (m : Utxos) {o : ReferencedOutput}
    (ho : o ∈ (Confirmation.ofBlock config b.header txs').saved) :
    (Confirmation.ofBlock config b.header txs').saved.foldl Utxos.save m o.ref =
      some o.output := by
  refine Utxos.foldl_save_eq_some (fun p hp href => ?_) (.inr ⟨o, ho, rfl⟩)
  rw [ordered.creates_unique (creates_of_mem_saved resolved hp) (creates_of_mem_saved resolved ho)
    href]

namespace Tally

variable {m : Utxos}

/-- With the outputs of the block saved, all that were not consumed before it are stored. -/
theorem saved_eq (h : Tally config blocks m) (keepsTrack : config.KeepsTrack)
    (ordered : Ordered (blocks ++ [b])) (resolved : ResolvedTxs lookup [] b.txs txs')
    {o : ReferencedOutput} (ho : Created (blocks ++ [b]) o)
    (keeps : config.keepsAddress o.output.address = true) (before : ¬ Consumed blocks o.ref) :
    (Confirmation.ofBlock config b.header txs').saved.foldl Utxos.save m o.ref =
      some o.output := by
  rcases created_append_singleton.1 ho with ho | ho
  · obtain ⟨tx, htx, hash⟩ := ho.exists_hash
    rw [foldl_saved_of_front ordered resolved m htx hash, h.unspent o ho keeps before]
  · exact foldl_saved_of_mem ordered resolved m ((mem_saved keepsTrack resolved).2 ⟨ho, keeps⟩)

/-- An output that the block consumes is found, since it was saved or is one of the block, and is seen to
be of a kept address. So it is spent. -/
theorem mem_spent (h : Tally config blocks m) (keepsTrack : config.KeepsTrack)
    (ordered : Ordered (blocks ++ [b])) (resolved : ResolvedTxs lookup [] b.txs txs')
    (hlookup : ∀ r output, lookup r = .ok output → output = (m r).getD .unknown)
    {o : ReferencedOutput} (ho : Created (blocks ++ [b]) o)
    (keeps : config.keepsAddress o.output.address = true) (before : ¬ Consumed blocks o.ref)
    (consumes : b.Consumes o.ref) :
    o.ref ∈ (Confirmation.ofBlock config b.header txs').spent := by
  obtain ⟨output, hfound, hspent⟩ := found_of_consumes keepsTrack ordered resolved consumes
  refine hspent ?_
  rcases created_append_singleton.1 ho with ho | ho
  · rcases hfound with ⟨tx, htx, hp⟩ | ⟨-, hl⟩
    · exact absurd (Tx.hash_of_mem_produced hp) (ordered.ne_of_created ho htx)
    · have heq := hlookup _ _ hl
      rw [h.unspent o ho keeps before, Option.getD_some] at heq
      rw [heq]
      exact keeps
  · rcases hfound with ⟨tx, htx, hp⟩ | ⟨habsent, -⟩
    · have heq := ordered.creates_unique ho (creates_iff.2 ⟨tx, htx, _, hp, rfl⟩) rfl
      have haddress : o.output.address = output.address := by rw [heq]
      rw [← haddress]
      exact keeps
    · exact absurd rfl (habsent o ho)

/-- A confirmation keeps the tally. -/
theorem confirm (h : Tally config blocks m) (keepsTrack : config.KeepsTrack)
    (ordered : Ordered (blocks ++ [b])) (resolved : ResolvedTxs lookup [] b.txs txs')
    (hlookup : ∀ r output, lookup r = .ok output → output = (m r).getD .unknown)
    {c : Confirmation} (hc : c = Confirmation.ofBlock config b.header txs') :
    Tally config (blocks ++ [b])
      (c.spent.foldl (Utxos.spend config.softDelete) (c.saved.foldl Utxos.save m)) := by
  subst hc
  refine ⟨fun o ho keeps hno => ?_, fun o ho keeps hcons => ?_, fun r output hr => ?_⟩
  · have hnot : o.ref ∉ (Confirmation.ofBlock config b.header txs').spent := fun hmem =>
      hno (consumed_append_singleton.2 (.inr (consumes_of_mem_spent resolved hmem)))
    rw [Utxos.foldl_spend, if_neg hnot]
    exact h.saved_eq keepsTrack ordered resolved ho keeps fun before =>
      hno (consumed_append_singleton.2 (.inl before))
  · rw [Utxos.foldl_spend]
    by_cases before : Consumed blocks o.ref
    · -- It was created before as well, and spending it once more makes no difference.
      have hold : Created blocks o := (created_append_singleton.1 ho).resolve_right fun hlast =>
        ordered.not_consumed hlast before
      obtain ⟨tx, htx, hash⟩ := hold.exists_hash
      rw [foldl_saved_of_front ordered resolved m htx hash, h.spent o hold keeps before]
      cases config.softDelete <;> simp [TxOutput.used]
    · have consumes := (consumed_append_singleton.1 hcons).resolve_left before
      rw [if_pos (h.mem_spent keepsTrack ordered resolved hlookup ho keeps before consumes),
        h.saved_eq keepsTrack ordered resolved ho keeps before]
      rfl
  · obtain ⟨saved, hsaved, -⟩ := Utxos.exists_of_foldl_spend hr
    by_cases hnamed : ∃ p ∈ (Confirmation.ofBlock config b.header txs').saved, p.ref = r
    · obtain ⟨p, hp, href⟩ := hnamed
      obtain ⟨creates, keeps⟩ := (mem_saved keepsTrack resolved).1 hp
      exact ⟨p, created_append_singleton.2 (.inr creates), keeps, href⟩
    · rw [Utxos.foldl_save_of_forall_ne fun p hp href => hnamed ⟨p, hp, href⟩] at hsaved
      obtain ⟨o, ho, keeps, href⟩ := h.known r saved hsaved
      exact ⟨o, created_append_singleton.2 (.inl ho), keeps, href⟩

end Tally

end Confirmation

/-! ## Blocks confirmed one after the other -/

/-- A store in which blocks were confirmed one after the other. In between it may begin or cease to fail,
and anything may happen to it that leaves its outputs alone. -/
inductive ConfirmedChain (config : IndexerConfig) (db₀ : Database) :
    List SourceBlock → Database → Prop
  | start : ConfirmedChain config db₀ [] db₀
  | store {blocks : List SourceBlock} {db : Database} (h : ConfirmedChain config db₀ blocks db)
      (db' : Database) (same : db'.contents.get .utxos = db.contents.get .utxos) :
      ConfirmedChain config db₀ blocks db'
  | confirm {blocks : List SourceBlock} {s t : Indexer} {c : Confirmation}
      (h : ConfirmedChain config db₀ blocks s.database) (ready : s.Ready config) (b : SourceBlock)
      (hc : s.confirm b.header b.txs = (.ok c, t)) :
      ConfirmedChain config db₀ (blocks ++ [b]) t.database

section Chain

variable {config : IndexerConfig} {db₀ db : Database} {blocks : List SourceBlock}

/-- A header that is announced confirms the oldest block that waits, or none, if the store commits
atomically and the consumer leaves the outputs alone. -/
theorem ConfirmedChain.forwarded {κ : Type} {s : Indexer} {source : BlockSource}
    {consumer : Consumer κ} {header : BlockHeader} {k : κ}
    {r : Except IndexerError Unit × Indexer × κ} (chain : ConfirmedChain config db₀ blocks s.database)
    (ready : s.Ready config) (atomic : s.database.engine.CommitsAtomically)
    (leaves : ∀ block txs k db,
      (consumer block txs k db).2.2.contents.get .utxos = db.contents.get .utxos)
    (hf : s.Forwarded source consumer header k r) :
    ConfirmedChain config db₀ blocks r.2.1.database ∨
      ∃ oldest rest txs, s.pending = oldest :: rest ∧ source oldest = .ok txs ∧
        ConfirmedChain config db₀ (blocks ++ [⟨oldest, txs⟩]) r.2.1.database := by
  cases hf with
  | waits => exact .inl chain
  | failed e writer database full notConsumer idle unchanged =>
    rw [unchanged atomic]
    exact .inl chain
  | confirmed oldest rest txs c t window full pending fetched confirm =>
    have confirmed := chain.confirm ready ⟨oldest, txs⟩ confirm
    exact .inr ⟨oldest, rest, txs, pending, fetched, confirmed.store _ (leaves _ _ _ _)⟩

theorem ConfirmedChain.tally (chain : ConfirmedChain config db₀ blocks db)
    (fresh : db₀.contents.get .utxos = ∅) (keepsTrack : config.KeepsTrack)
    (ordered : Ordered blocks) :
    ∃ m : Utxos, m.StoredIn db.contents ∧ Tally config blocks m := by
  induction chain with
  | start => exact ⟨_, .empty fresh, .empty config⟩
  | store _ db' same ih =>
    obtain ⟨m, stored, tally⟩ := ih ordered
    exact ⟨m, stored.congr same, tally⟩
  | confirm _ ready b hc ih =>
    obtain ⟨m, stored, tally⟩ := ih ordered.front
    have storable : ∀ tx ∈ b.txs, ∀ o ∈ tx.outputs, o.Storable := fun tx htx =>
      ordered.storable tx (Ordered.mem_of_mem_last htx)
    obtain ⟨txs', resolved, heq, stored'⟩ := Indexer.confirm_stored ready stored storable hc
    exact ⟨_, stored', tally.confirm keepsTrack ordered resolved
      (fun r output hq => stored.txOutput hq) heq⟩

/-- A store that had no outputs, after any blocks of a ledger were confirmed: those listed for an address
as unused are the outputs that the blocks created for it and did not consume. The consumed ones are
listed with them, marked as used, or gone. -/
theorem outputsAt_eq_unspent (chain : ConfirmedChain config db₀ blocks db)
    (fresh : db₀.contents.get .utxos = ∅) (consistent : Consistent blocks) (address : String)
    (tracked : config.filtersAddresses = false ∨ config.keepAllOutputs = true ∨
      (config.addressCheck = .both ∧ config.isOfInterest address = true))
    (usable : db.isPoisoned = false)
    (readable : db.engine.faults.scan .utxos .all .ascending = none) :
    (∃ found, db.outputsAt address true = .ok found ∧
      found.Pairwise (fun o p => o.ref ≠ p.ref) ∧
      ∀ o, o ∈ found ↔
        Created blocks o ∧ o.output.address = address ∧ ¬ Consumed blocks o.ref) ∧
    (config.softDelete = true → ∃ found, db.outputsAt address false = .ok found ∧
      found.Pairwise (fun o p => o.ref ≠ p.ref) ∧
      ∀ o, o ∈ found ↔
        (Created blocks o ∧ o.output.address = address ∧ ¬ Consumed blocks o.ref) ∨
        ∃ p, Created blocks p ∧ p.output.address = address ∧ Consumed blocks p.ref ∧
          o = ⟨p.ref, p.output.used⟩) ∧
    (config.softDelete = false → db.outputsAt address false = db.outputsAt address true) := by
  have keepsTrack : config.KeepsTrack := tracked.imp_right fun h => h.imp_right And.left
  have keeps : config.keepsAddress address = true := by
    rcases tracked with h | h | ⟨-, h⟩ <;> simp [IndexerConfig.keepsAddress, h]
  obtain ⟨m, stored, tally⟩ := chain.tally fresh keepsTrack consistent.ordered
  have unused : ∀ o, Created blocks o → o.output.isUsed = false := consistent.unused_of_created
  refine ⟨?_, fun soft => ?_, fun hard => ?_⟩
  · obtain ⟨found, hfound, distinct, hmem⟩ := stored.outputsAt usable readable address true
    refine ⟨found, hfound, distinct, fun o => (hmem o).trans ⟨?_, ?_⟩⟩
    · rintro ⟨hm, rfl, hunused⟩
      rcases tally.cases hm with ⟨ho, -, hno⟩ | ⟨p, -, -, -, -, hused⟩
      · exact ⟨ho, rfl, hno⟩
      · rw [hused] at hunused
        cases hunused rfl
    · rintro ⟨ho, rfl, hno⟩
      exact ⟨tally.unspent o ho keeps hno, rfl, fun _ => unused o ho⟩
  · obtain ⟨found, hfound, distinct, hmem⟩ := stored.outputsAt usable readable address false
    refine ⟨found, hfound, distinct, fun o => (hmem o).trans ⟨?_, ?_⟩⟩
    · rintro ⟨hm, rfl, -⟩
      rcases tally.cases hm with ⟨ho, -, hno⟩ | ⟨p, ho, hcons, href, -, hused⟩
      · exact .inl ⟨ho, rfl, hno⟩
      · refine .inr ⟨p, ho, ?_, hcons, ?_⟩
        · rw [hused]; rfl
        · rw [href, ← hused]
    · rintro (⟨ho, rfl, hno⟩ | ⟨p, hp, rfl, hcons, rfl⟩)
      · exact ⟨tally.unspent o ho keeps hno, rfl, fun h => by cases h⟩
      · refine ⟨?_, rfl, fun h => by cases h⟩
        rw [tally.spent p hp keeps hcons, if_pos soft]
  · refine stored.outputsAt_of_unused usable readable (fun r output hm => ?_) address
    rcases tally.cases (o := ⟨r, output⟩) hm with ⟨ho, -, -⟩ | ⟨p, -, -, -, soft, -⟩
    · exact unused _ ho
    · rw [hard] at soft
      cases soft

end Chain

/-- An output is spent in its own block, another one in the next block. -/
def spendingBlocks : List SourceBlock :=
  [⟨Fixture.header 1,
      [Fixture.tx 1 0 [] [Fixture.output "alice" 5, Fixture.output "bob" 7],
        Fixture.tx 1 1 [⟨Fixture.txHash 1 0, 0⟩] [Fixture.output "alice" 4]]⟩,
    ⟨Fixture.header 2, [Fixture.tx 2 0 [⟨Fixture.txHash 1 1, 0⟩] [Fixture.output "alice" 3]]⟩]

/-- Outputs without tokens and datum can be stored. -/
theorem storable_of_plain {blocks : List SourceBlock}
    (plain : ∀ tx ∈ allTxs blocks, ∀ o ∈ tx.outputs,
      (Utf8.encode o.address).length < UInt64.size ∧ o.tokens = [] ∧ o.datum = none) :
    ∀ tx ∈ allTxs blocks, ∀ o ∈ tx.outputs, o.Storable := by
  intro tx htx o ho
  obtain ⟨haddress, htokens, hdatum⟩ := plain tx htx o ho
  exact ⟨haddress, by simp [htokens], by simp [htokens], by simp [hdatum]⟩

theorem consistent_spendingBlocks : Consistent spendingBlocks where
  distinct := by decide +kernel
  earlier := by decide +kernel
  notOwn := by decide +kernel
  unresolved := by decide +kernel
  unused := by decide +kernel
  indexed := by decide +kernel
  storable := storable_of_plain (by decide +kernel)

/-- The output of the last transaction is listed as unused; the one spent in its own block is not, but is
listed with the used ones. -/
theorem outputsAt_spendingBlocks :
    let s : Indexer :=
      { config := { addressesOfInterest := ["alice"], softDelete := true }
        database := .new .memory
        window := .empty 10 }
    let db := (spendingBlocks.foldl (fun s b => (s.confirm b.header b.txs).2) s).database
    let last : ReferencedOutput :=
      ⟨⟨Fixture.txHash 2 0, 0⟩, { Fixture.output "alice" 3 with slot := 2 }⟩
    let early : ReferencedOutput :=
      ⟨⟨Fixture.txHash 1 0, 0⟩, { Fixture.output "alice" 5 with slot := 1 }⟩
    ∃ found all, db.outputsAt "alice" true = .ok found ∧ db.outputsAt "alice" false = .ok all ∧
      last ∈ found ∧ early ∉ found ∧ ⟨early.ref, early.output.used⟩ ∈ all := by
  intro s db last early
  have ready : s.Ready s.config := ⟨rfl, by decide, rfl, rfl⟩
  have step : ∀ (s : Indexer) (b : SourceBlock), (s.confirm b.header b.txs).1.isOk = true →
      ∃ c, s.confirm b.header b.txs = (.ok c, (s.confirm b.header b.txs).2) := by
    intro s b ok
    cases hc : (s.confirm b.header b.txs).1 with
    | error e => rw [hc] at ok; cases ok
    | ok c => exact ⟨c, by rw [← hc]⟩
  obtain ⟨c₁, first⟩ := step s spendingBlocks[0] (by decide +kernel)
  obtain ⟨c₂, second⟩ := step (s.confirm spendingBlocks[0].header spendingBlocks[0].txs).2
    spendingBlocks[1] (by decide +kernel)
  have chain : ConfirmedChain s.config s.database spendingBlocks db :=
    .confirm (.confirm .start ready spendingBlocks[0] first) (ready.confirm first)
      spendingBlocks[1] second
  obtain ⟨⟨found, hfound, -, hmem⟩, hsoft, -⟩ := outputsAt_eq_unspent chain rfl
    consistent_spendingBlocks "alice" (.inr (.inr ⟨rfl, by decide⟩)) (by decide +kernel)
    (by decide +kernel)
  obtain ⟨all, hall, -, hmemAll⟩ := hsoft rfl
  refine ⟨found, all, hfound, hall, (hmem last).2 (by decide +kernel), fun h => ?_, ?_⟩
  · have spent : Consumed spendingBlocks early.ref := by decide +kernel
    exact ((hmem early).1 h).2.2 spent
  · exact (hmemAll _).2 (.inr ⟨early, by decide +kernel⟩)

end ChainIndex
