import Mathlib.Data.List.Nodup
import ChainIndex.Proofs.Indexer.Commits
import ChainIndex.Proofs.Indexer.Unspent

/-!
# Which transactions are followed

* `SourceBlock.Touches`: a transaction pays to a followed address, or consumes an output of the blocks that
  does, on a side that is checked.
* `SourceBlock.Followed`: the transactions that are followed. Within a block every output is found. Across
  blocks it has to be stored, and unless all outputs are kept those of followed transactions are. With all
  outputs kept, or with the outputs checked, the two are the same (`SourceBlock.followed_iff_touches`).
* `Remembers`: what the store holds of the outputs to followed addresses. A confirmation follows those
  transactions of its block (`Remembers.isRelevant_iff`) and keeps what is said of the store
  (`Remembers.confirm`).
* `handed_eq_followed`: so the consumer is handed the followed transactions, and they are stored as
  unprocessed.
-/

namespace ChainIndex

/-- A transaction consumes an output of another one that pays to a followed address. -/
def IndexerConfig.Feeds (config : IndexerConfig) (producer tx : Tx) : Prop :=
  ∃ o ∈ producer.produced, config.isOfInterest o.output.address = true ∧
    ∃ io ∈ tx.inputs, io.ref = o.ref

namespace SourceBlock

/-- No output is consumed by two transactions. -/
def SpentOnce (blocks : List SourceBlock) : Prop :=
  (allTxs blocks).Pairwise fun tx later => ∀ io ∈ tx.inputs, ∀ io' ∈ later.inputs, io.ref ≠ io'.ref

instance (blocks : List SourceBlock) : Decidable (SpentOnce blocks) :=
  inferInstanceAs (Decidable (List.Pairwise _ _))

/-- A transaction pays to a followed address, or consumes an output of the blocks that does. -/
def Touches (config : IndexerConfig) (blocks : List SourceBlock) (tx : Tx) : Prop :=
  (config.addressCheck.outputs = true ∧ ∃ o ∈ tx.outputs, config.isOfInterest o.address = true) ∨
    (config.addressCheck.inputs = true ∧ ∃ producer ∈ allTxs blocks, config.Feeds producer tx)

/-- The transactions that are followed. -/
inductive Followed (config : IndexerConfig) (blocks : List SourceBlock) : Tx → Prop
  | pays {tx : Tx} {o : TxOutput} (checked : config.addressCheck.outputs = true)
      (mem : o ∈ tx.outputs) (watched : config.isOfInterest o.address = true) :
      Followed config blocks tx
  /-- Within a block every output is found. -/
  | spendsHere {b : SourceBlock} {producer tx : Tx} (checked : config.addressCheck.inputs = true)
      (block : b ∈ blocks) (mem : producer ∈ b.txs) (here : tx ∈ b.txs)
      (feeds : config.Feeds producer tx) : Followed config blocks tx
  | spendsKept {producer tx : Tx} (checked : config.addressCheck.inputs = true)
      (mem : producer ∈ allTxs blocks) (kept : config.keepAllOutputs = true)
      (feeds : config.Feeds producer tx) : Followed config blocks tx
  | spendsFollowed {producer tx : Tx} (checked : config.addressCheck.inputs = true)
      (mem : producer ∈ allTxs blocks) (followed : Followed config blocks producer)
      (feeds : config.Feeds producer tx) : Followed config blocks tx

/-- The outputs of a transaction are saved. -/
def Remembered (config : IndexerConfig) (blocks : List SourceBlock) (tx : Tx) : Prop :=
  config.keepAllOutputs = true ∨ Followed config blocks tx

variable {config : IndexerConfig} {blocks : List SourceBlock} {b : SourceBlock} {tx producer : Tx}

/-- Whoever feeds others pays to a followed address, so with the outputs checked it is followed. -/
theorem Followed.of_feeds (checked : config.addressCheck.outputs = true)
    (feeds : config.Feeds producer tx) : Followed config blocks producer := by
  obtain ⟨o, ho, watched, -⟩ := feeds
  obtain ⟨i, hi, rfl⟩ := Tx.mem_produced.1 ho
  exact .pays checked (List.getElem_mem hi) watched

/-- With all outputs kept, or with the outputs checked, a transaction is followed if it touches a followed
address, wherever the outputs that it consumes come from. -/
theorem followed_iff_touches
    (h : config.keepAllOutputs = true ∨ config.addressCheck.outputs = true) :
    Followed config blocks tx ↔ Touches config blocks tx := by
  constructor
  · intro hf
    cases hf with
    | pays checked mem watched => exact .inl ⟨checked, _, mem, watched⟩
    | spendsHere checked block mem here feeds =>
      exact .inr ⟨checked, _, List.mem_flatMap.2 ⟨_, block, mem⟩, feeds⟩
    | spendsKept checked mem _ feeds | spendsFollowed checked mem _ feeds =>
      exact .inr ⟨checked, _, mem, feeds⟩
  · rintro (⟨checked, o, mem, watched⟩ | ⟨checked, producer, mem, feeds⟩)
    · exact .pays checked mem watched
    · rcases h with kept | outputs
      · exact .spendsKept checked mem kept feeds
      · exact .spendsFollowed checked mem (.of_feeds outputs feeds) feeds

/-! ## One more block -/

theorem mem_allTxs_append_singleton :
    tx ∈ allTxs (blocks ++ [b]) ↔ tx ∈ allTxs blocks ∨ tx ∈ b.txs := by
  rw [allTxs_append_singleton, List.mem_append]

theorem Followed.append_singleton (h : Followed config blocks tx) :
    Followed config (blocks ++ [b]) tx := by
  induction h with
  | pays checked mem watched => exact .pays checked mem watched
  | spendsHere checked block mem here feeds =>
    exact .spendsHere checked (List.mem_append_left _ block) mem here feeds
  | spendsKept checked mem kept feeds =>
    exact .spendsKept checked (mem_allTxs_append_singleton.2 (.inl mem)) kept feeds
  | spendsFollowed checked mem _ feeds ih =>
    exact .spendsFollowed checked (mem_allTxs_append_singleton.2 (.inl mem)) ih feeds

theorem SpentOnce.front (h : SpentOnce (blocks ++ [b])) : SpentOnce blocks := by
  rw [SpentOnce, allTxs_append_singleton] at h
  exact (List.pairwise_append.1 h).1

/-- What the last block consumes was not consumed before. -/
theorem SpentOnce.not_consumed (h : SpentOnce (blocks ++ [b])) (hmem : tx ∈ b.txs)
    {io : ReferencedOutput} (hio : io ∈ tx.inputs) : ¬ Consumed blocks io.ref := by
  rintro ⟨b', hb', other, hother, io', hio', href⟩
  rw [SpentOnce, allTxs_append_singleton] at h
  have hpair := (List.pairwise_append.1 h).2.2 other (List.mem_flatMap.2 ⟨b', hb', hother⟩) tx hmem
  exact hpair io' hio' io hio href

/-- A transaction of the last block feeds none of the blocks before. -/
theorem Ordered.not_feeds (h : Ordered (blocks ++ [b])) (hmem : tx ∈ allTxs blocks)
    (hlast : producer ∈ b.txs) : ¬ config.Feeds producer tx := by
  rintro ⟨o, ho, -, io, hio, href⟩
  refine (h.ne_last hmem hlast).2 io hio ?_
  rw [href, Tx.hash_of_mem_produced ho]

/-- Whether a transaction is followed is settled by the blocks up to its own. -/
theorem Ordered.followed_front (h : Ordered (blocks ++ [b])) (hmem : tx ∈ allTxs blocks) :
    Followed config (blocks ++ [b]) tx ↔ Followed config blocks tx := by
  refine ⟨fun hf => ?_, .append_singleton⟩
  have hfront {producer tx : Tx} (hmem : tx ∈ allTxs blocks)
      (hproducer : producer ∈ allTxs (blocks ++ [b])) (feeds : config.Feeds producer tx) :
      producer ∈ allTxs blocks :=
    (mem_allTxs_append_singleton.1 hproducer).resolve_right fun hlast =>
      h.not_feeds hmem hlast feeds
  induction hf with
  | pays checked mem watched => exact .pays checked mem watched
  | @spendsHere b' _ _ checked block mem here feeds =>
    rcases List.mem_append.1 block with block | hb
    · exact .spendsHere checked block mem here feeds
    · obtain rfl := List.mem_singleton.1 hb
      exact absurd feeds (h.not_feeds hmem mem)
  | spendsKept checked mem kept feeds =>
    exact .spendsKept checked (hfront hmem mem feeds) kept feeds
  | spendsFollowed checked mem _ feeds ih =>
    exact .spendsFollowed checked (hfront hmem mem feeds) (ih (hfront hmem mem feeds)) feeds

/-- A transaction of the last block is followed for what it pays, or for what it consumes of its block or of
the remembered transactions before. -/
theorem Ordered.followed_last (h : Ordered (blocks ++ [b])) (hmem : tx ∈ b.txs) :
    Followed config (blocks ++ [b]) tx ↔
      (config.addressCheck.outputs = true ∧ ∃ o ∈ tx.outputs, config.isOfInterest o.address = true) ∨
      (config.addressCheck.inputs = true ∧ ∃ producer, config.Feeds producer tx ∧
        (producer ∈ b.txs ∨ producer ∈ allTxs blocks ∧ Remembered config blocks producer)) := by
  constructor
  · intro hf
    cases hf with
    | pays checked mem watched => exact .inl ⟨checked, _, mem, watched⟩
    | @spendsHere b' _ _ checked block mem here feeds =>
      rcases List.mem_append.1 block with block | hb
      · exact absurd rfl (h.ne_last (List.mem_flatMap.2 ⟨b', block, here⟩) hmem).1
      · obtain rfl := List.mem_singleton.1 hb
        exact .inr ⟨checked, _, feeds, .inl mem⟩
    | spendsKept checked mem kept feeds =>
      refine .inr ⟨checked, _, feeds, ?_⟩
      exact (mem_allTxs_append_singleton.1 mem).symm.imp_right fun mem => ⟨mem, .inl kept⟩
    | spendsFollowed checked mem followed feeds =>
      refine .inr ⟨checked, _, feeds, ?_⟩
      exact (mem_allTxs_append_singleton.1 mem).symm.imp_right fun mem =>
        ⟨mem, .inr ((h.followed_front mem).1 followed)⟩
  · rintro (⟨checked, o, mem, watched⟩ | ⟨checked, producer, feeds, mem | ⟨mem, kept | followed⟩⟩)
    · exact .pays checked mem watched
    · exact .spendsHere checked (by simp) mem hmem feeds
    · exact .spendsKept checked (mem_allTxs_append_singleton.2 (.inl mem)) kept feeds
    · exact .spendsFollowed checked (mem_allTxs_append_singleton.2 (.inl mem))
        followed.append_singleton feeds

end SourceBlock

open SourceBlock

/-! ## What the store remembers -/

/-- The outputs to followed addresses that are stored: those of remembered transactions that were not
consumed, and no others than of remembered transactions. -/
structure Remembers (config : IndexerConfig) (blocks : List SourceBlock) (m : Utxos) : Prop where
  stored : ∀ producer ∈ allTxs blocks, Remembered config blocks producer → ∀ o ∈ producer.produced,
    config.isOfInterest o.output.address = true → ¬ Consumed blocks o.ref →
    ∃ output, m o.ref = some output ∧ output.address = o.output.address
  known : ∀ r output, m r = some output → config.isOfInterest output.address = true →
    ∃ producer ∈ allTxs blocks, Remembered config blocks producer ∧
      ∃ o ∈ producer.produced, o.ref = r ∧ o.output.address = output.address

theorem Remembers.empty (config : IndexerConfig) : Remembers config [] fun _ => none where
  stored producer hp := by cases hp
  known r output h := by cases h

section Confirmation

variable {config : IndexerConfig} {blocks : List SourceBlock} {b : SourceBlock}
  {lookup : OutputRef → Except StoreError TxOutput} {m : Utxos} {tx tx' : Tx} {txs' : List Tx}

section Lookups

variable (ordered : Ordered (blocks ++ [b])) {front rest : List Tx}
  (htxs : b.txs = front ++ tx :: rest)

include ordered htxs

/-- An input finds the output of an earlier transaction of the block, or looks it up. -/
theorem found_of_input {io io' : ReferencedOutput} (hio : io ∈ tx.inputs)
    (hfound : ResolvedInput lookup (front.flatMap Tx.produced).reverse io io') :
    (∃ producer ∈ front, ⟨io.ref, io'.output⟩ ∈ producer.produced) ∨
      (∀ producer ∈ front, ∀ o ∈ producer.produced, o.ref ≠ io.ref) ∧
        lookup io.ref = .ok io'.output := by
  have unknown := ordered.unresolved tx (Ordered.mem_of_mem_last (by simp [htxs])) io hio
  refine (hfound.2 unknown).imp (fun hproduced => ?_) (And.imp_left fun habsent => ?_)
  · exact List.mem_flatMap.1 (List.mem_reverse.1 hproduced)
  · exact fun producer hproducer o ho =>
      habsent o (List.mem_reverse.2 (List.mem_flatMap.2 ⟨producer, hproducer, ho⟩))

variable (hr : ResolvedTx lookup (front.flatMap Tx.produced).reverse tx tx')

include hr

/-- The output of a transaction of the block is found there, for that one comes before. -/
theorem watched_of_feeds_here {producer : Tx} (hproducer : producer ∈ b.txs)
    (feeds : config.Feeds producer tx) :
    ∃ io ∈ tx'.inputs, config.isOfInterest io.output.address = true := by
  obtain ⟨o, ho, watched, io, hio, href⟩ := feeds
  obtain ⟨io', hio', hfound⟩ := hr.inputs_of io hio
  have hash : io.ref.hash = producer.hash := by rw [href, Tx.hash_of_mem_produced ho]
  have hfront := ordered.mem_front htxs hproducer hio hash
  refine ⟨io', hio', ?_⟩
  rcases found_of_input ordered htxs hio hfound with ⟨other, hother, hp⟩ | ⟨habsent, -⟩
  · have hmem : other ∈ b.txs := by simp [htxs, hother]
    have heq := ordered.produced_unique hmem hproducer hp ho href
    rwa [← heq] at watched
  · exact absurd href.symm (habsent producer hfront o ho)

/-- The output of a remembered transaction is stored, since nobody has consumed it. -/
theorem Remembers.watched_of_feeds (h : Remembers config blocks m)
    (once : SpentOnce (blocks ++ [b]))
    (hlookup : ∀ r output, lookup r = .ok output → output = (m r).getD .unknown) {producer : Tx}
    (hproducer : producer ∈ allTxs blocks) (remembered : Remembered config blocks producer)
    (feeds : config.Feeds producer tx) :
    ∃ io ∈ tx'.inputs, config.isOfInterest io.output.address = true := by
  obtain ⟨o, ho, watched, io, hio, href⟩ := feeds
  obtain ⟨io', hio', hfound⟩ := hr.inputs_of io hio
  have unspent : ¬ Consumed blocks o.ref := href ▸ once.not_consumed (by simp [htxs]) hio
  obtain ⟨output, hm, haddress⟩ := h.stored producer hproducer remembered o ho watched unspent
  refine ⟨io', hio', ?_⟩
  rcases found_of_input ordered htxs hio hfound with ⟨other, hother, hp⟩ | ⟨-, hl⟩
  · have hmem : other ∈ b.txs := by simp [htxs, hother]
    have hash := Tx.hash_of_mem_produced hp
    refine absurd ?_ (ordered.ne_last hproducer hmem).1
    rw [← Tx.hash_of_mem_produced ho, ← href]
    exact hash
  · have heq := hlookup _ _ hl
    rw [href, hm, Option.getD_some] at heq
    rw [heq, haddress]
    exact watched

/-- And whatever is found of a followed address is one of these outputs. -/
theorem Remembers.feeds_of_watched (h : Remembers config blocks m)
    (noEmpty : config.isOfInterest "" = false)
    (hlookup : ∀ r output, lookup r = .ok output → output = (m r).getD .unknown)
    {io' : ReferencedOutput} (hio' : io' ∈ tx'.inputs)
    (watched : config.isOfInterest io'.output.address = true) :
    ∃ producer, config.Feeds producer tx ∧
      (producer ∈ b.txs ∨ producer ∈ allTxs blocks ∧ Remembered config blocks producer) := by
  obtain ⟨io, hio, hfound⟩ := hr.of_inputs io' hio'
  rcases found_of_input ordered htxs hio hfound with ⟨producer, hproducer, hp⟩ | ⟨-, hl⟩
  · exact ⟨producer, ⟨_, hp, watched, io, hio, rfl⟩, .inl (by simp [htxs, hproducer])⟩
  · have hm := hlookup _ _ hl
    cases hs : m io.ref with
    | none =>
      rw [hm, hs] at watched
      exact absurd watched (by simpa [TxOutput.unknown] using noEmpty)
    | some output =>
      rw [hs, Option.getD_some] at hm
      rw [← hm] at hs
      obtain ⟨producer, hproducer, remembered, o, ho, href, haddress⟩ := h.known _ _ hs watched
      exact ⟨producer, ⟨o, ho, haddress ▸ watched, io, hio, href.symm⟩,
        .inr ⟨hproducer, remembered⟩⟩

/-- A transaction of the block passes the filter if and only if it is followed. -/
theorem Remembers.isRelevant_iff (h : Remembers config blocks m)
    (once : SpentOnce (blocks ++ [b])) (filters : config.filtersAddresses = true)
    (noEmpty : config.isOfInterest "" = false)
    (hlookup : ∀ r output, lookup r = .ok output → output = (m r).getD .unknown) :
    config.isRelevant tx' = true ↔ Followed config (blocks ++ [b]) tx := by
  have houtputs : tx'.outputs = tx.outputs := by rw [hr.eq_inputs]
  have hinputs : (∃ io ∈ tx'.inputs, config.isOfInterest io.output.address = true) ↔
      ∃ producer, config.Feeds producer tx ∧
        (producer ∈ b.txs ∨ producer ∈ allTxs blocks ∧ Remembered config blocks producer) := by
    constructor
    · rintro ⟨io', hio', watched⟩
      exact h.feeds_of_watched ordered htxs hr noEmpty hlookup hio' watched
    · rintro ⟨producer, feeds, here | ⟨before, remembered⟩⟩
      · exact watched_of_feeds_here ordered htxs hr here feeds
      · exact h.watched_of_feeds ordered htxs hr once hlookup before remembered feeds
  rw [ordered.followed_last (by simp [htxs]), ← hinputs]
  simp [IndexerConfig.isRelevant, filters, houtputs, or_comm]

end Lookups

/-- A transaction of the blocks and what a confirmation makes of it: its inputs are looked up, and it is
relevant if and only if it is followed. -/
structure Matches (config : IndexerConfig) (blocks : List SourceBlock) (tx tx' : Tx) : Prop extends
    tx.SameUpToLookups tx' where
  relevant_iff : config.isRelevant tx' = true ↔ Followed config blocks tx

theorem Remembers.matches (h : Remembers config blocks m) (ordered : Ordered (blocks ++ [b]))
    (once : SpentOnce (blocks ++ [b])) (filters : config.filtersAddresses = true)
    (noEmpty : config.isOfInterest "" = false) (resolved : ResolvedTxs lookup [] b.txs txs')
    (hlookup : ∀ r output, lookup r = .ok output → output = (m r).getD .unknown) :
    List.Forall₂ (Matches config (blocks ++ [b])) b.txs txs' := by
  refine resolved.forall₂.imp fun tx tx' hpair => ?_
  obtain ⟨front, rest, htxs, hr⟩ := hpair
  rw [List.append_nil] at hr
  exact ⟨hr.toSameUpToLookups, h.isRelevant_iff ordered htxs hr once filters noEmpty hlookup⟩

/-- The outputs of remembered transactions of the block are saved, if they pay to kept addresses. -/
theorem mem_saved_of_matches (pairs : List.Forall₂ (Matches config (blocks ++ [b])) b.txs txs')
    {o : ReferencedOutput} : o ∈ (Confirmation.ofBlock config b.header txs').saved ↔
      ∃ tx ∈ b.txs, Remembered config (blocks ++ [b]) tx ∧ ∃ p ∈ tx.produced,
        config.keepsAddress p.output.address = true ∧
        o = { p with output := { p.output with slot := b.header.slot } } := by
  have produced_eq {tx tx' : Tx} (h : Matches config (blocks ++ [b]) tx tx') :
      tx'.produced = tx.produced := by
    rw [h.eq_inputs]
    rfl
  rw [Confirmation.mem_saved_ofBlock]
  constructor
  · rintro ⟨tx', htx', remembered, ho⟩
    have back : List.Forall₂ (flip (Matches config (blocks ++ [b]))) txs' b.txs := pairs.flip
    obtain ⟨tx, htx, hm⟩ := exists_of_forall₂ back htx'
    refine ⟨tx, htx, remembered.imp_right (Matches.relevant_iff hm).1, ?_⟩
    rwa [Confirmation.mem_savedOutputs, produced_eq hm] at ho
  · rintro ⟨tx, htx, remembered, hp⟩
    obtain ⟨tx', htx', hm⟩ := exists_of_forall₂ pairs htx
    refine ⟨tx', htx', remembered.imp_right hm.relevant_iff.2, ?_⟩
    rw [Confirmation.mem_savedOutputs, produced_eq hm]
    exact hp

/-- A confirmation remembers what is to be remembered of its block, and forgets nothing else. -/
theorem Remembers.confirm (h : Remembers config blocks m) (ordered : Ordered (blocks ++ [b]))
    (resolved : ResolvedTxs lookup [] b.txs txs')
    (pairs : List.Forall₂ (Matches config (blocks ++ [b])) b.txs txs')
    {c : Confirmation} (hc : c = Confirmation.ofBlock config b.header txs') :
    Remembers config (blocks ++ [b])
      (c.spent.foldl (Utxos.spend config.softDelete) (c.saved.foldl Utxos.save m)) := by
  subst hc
  refine ⟨fun producer hproducer remembered o ho watched unspent => ?_,
    fun r output hr watched => ?_⟩
  · have hnot : o.ref ∉ (Confirmation.ofBlock config b.header txs').spent := fun hmem =>
      unspent (consumed_append_singleton.2 (.inr (consumes_of_mem_spent resolved hmem)))
    rw [Utxos.foldl_spend, if_neg hnot]
    rcases mem_allTxs_append_singleton.1 hproducer with hold | hlast
    · rw [foldl_saved_of_front ordered resolved m hold (Tx.hash_of_mem_produced ho)]
      exact h.stored producer hold (remembered.imp_right (ordered.followed_front hold).1) o ho watched
        fun before => unspent (consumed_append_singleton.2 (.inl before))
    · have keeps : config.keepsAddress o.output.address = true := by
        simp [IndexerConfig.keepsAddress, watched]
      have hsaved := (mem_saved_of_matches pairs).2 ⟨producer, hlast, remembered, o, ho, keeps, rfl⟩
      have hstored := foldl_saved_of_mem ordered resolved m hsaved
      exact ⟨_, hstored, rfl⟩
  · obtain ⟨saved, hsaved, same⟩ := Utxos.exists_of_foldl_spend hr
    have haddress : saved.address = output.address := by rcases same with rfl | rfl <;> rfl
    rw [← haddress] at watched ⊢
    by_cases hnamed : ∃ p ∈ (Confirmation.ofBlock config b.header txs').saved, p.ref = r
    · obtain ⟨p, hp, rfl⟩ := hnamed
      rw [foldl_saved_of_mem ordered resolved m hp] at hsaved
      cases hsaved
      obtain ⟨tx, htx, remembered, o, ho, -, rfl⟩ := (mem_saved_of_matches pairs).1 hp
      exact ⟨tx, Ordered.mem_of_mem_last htx, remembered, o, ho, rfl, rfl⟩
    · rw [Utxos.foldl_save_of_forall_ne fun p hp href => hnamed ⟨p, hp, href⟩] at hsaved
      obtain ⟨producer, hproducer, remembered, o, ho, href, heq⟩ := h.known r saved hsaved watched
      exact ⟨producer, mem_allTxs_append_singleton.2 (.inl hproducer),
        remembered.imp_right Followed.append_singleton, o, ho, href, heq⟩

end Confirmation

/-! ## A course -/

/-- The blocks of headers. -/
def SourceBlock.ofHeaders (txsOf : BlockHeader → List Tx) (headers : List BlockHeader) :
    List SourceBlock := headers.map fun header => ⟨header, txsOf header⟩

theorem SourceBlock.mem_allTxs_ofHeaders {txsOf : BlockHeader → List Tx}
    {headers : List BlockHeader} {header : BlockHeader} (h : header ∈ headers) {tx : Tx}
    (htx : tx ∈ txsOf header) : tx ∈ allTxs (ofHeaders txsOf headers) :=
  List.mem_flatMap.2 ⟨_, List.mem_map_of_mem h, htx⟩

/-- Transactions handed over of a block: those that are followed, in order, with their inputs looked up. -/
def HandsFollowed (config : IndexerConfig) (blocks : List SourceBlock) (txs handed : List Tx) : Prop :=
  ∃ followed, followed.Sublist txs ∧ (∀ tx ∈ txs, tx ∈ followed ↔ Followed config blocks tx) ∧
    List.Forall₂ Tx.SameUpToLookups followed handed

section Course

variable {config : IndexerConfig} {txsOf : BlockHeader → List Tx} {blocks : List SourceBlock}
  {b : SourceBlock} {txs txs' : List Tx}

theorem HandsFollowed.of_matches (pairs : List.Forall₂ (Matches config blocks) txs txs') :
    HandsFollowed config blocks txs (txs'.filter config.isRelevant) := by
  classical
  refine ⟨txs.filter fun tx => decide (Followed config blocks tx), List.filter_sublist,
    fun tx htx => by simp [htx], ?_⟩
  refine (List.rel_filter (fun tx tx' hm => ?_) pairs).imp fun _ _ => Matches.toSameUpToLookups
  simpa using (Matches.relevant_iff hm).symm

theorem HandsFollowed.append_singleton (h : HandsFollowed config blocks txs txs')
    (ordered : Ordered (blocks ++ [b])) (mem : ∀ tx ∈ txs, tx ∈ allTxs blocks) :
    HandsFollowed config (blocks ++ [b]) txs txs' := by
  obtain ⟨followed, sublist, hmem, pairs⟩ := h
  exact ⟨followed, sublist, fun tx htx =>
    (hmem tx htx).trans (ordered.followed_front (mem tx htx)).symm, pairs⟩

/-- What a course keeps: the followed transactions were handed over, and are stored as unprocessed on top of
what was there; and the store remembers what it has to. -/
structure RecordsFollowed (config : IndexerConfig) (txsOf : BlockHeader → List Tx) (c₀ c : Contents)
    (handed : List (ConfirmedBlock × List Tx)) : Prop where
  unprocessed : c.get .unprocessedTxs =
    (c₀.get .unprocessedTxs).insertTxs (handed.flatMap (·.2))
  followed : let blocks := ofHeaders txsOf (handed.map (·.1.header))
    Ordered blocks → SpentOnce blocks → (∃ m : Utxos, m.StoredIn c ∧ Remembers config blocks m) ∧
      ∀ h ∈ handed, HandsFollowed config blocks (txsOf h.1.header) h.2

theorem RecordsFollowed.start {c₀ : Contents} (fresh : c₀.get .utxos = ∅) :
    RecordsFollowed config txsOf c₀ c₀ [] where
  unprocessed := rfl
  followed _ _ := ⟨⟨_, .empty fresh, .empty config⟩, nofun⟩

theorem recordsFollowed_confirmKeeps (filters : config.filtersAddresses = true)
    (noEmpty : config.isOfInterest "" = false) (txsOf : BlockHeader → List Tx) (c₀ : Contents) :
    ConfirmKeeps config txsOf (RecordsFollowed config txsOf c₀) := by
  intro s t header c handed ready confirm h
  have written := Indexer.confirm_written ready confirm
  refine ⟨?_, fun ordered once => ?_⟩
  · rw [written.unprocessedTxs, h.unprocessed, List.flatMap_append, KeyMap.insertTxs_append]
    simp
  · have hblocks : ofHeaders txsOf ((handed ++ [(c.block, c.txs)]).map (·.1.header)) =
        ofHeaders txsOf (handed.map (·.1.header)) ++ [⟨header, txsOf header⟩] := by
      simp [ofHeaders, Indexer.confirm_block confirm]
    simp only [hblocks] at ordered once ⊢
    obtain ⟨⟨m, stored, remembers⟩, before⟩ := h.followed ordered.front once.front
    have storable : ∀ tx ∈ txsOf header, ∀ o ∈ tx.outputs, o.Storable := fun tx htx =>
      ordered.storable tx (Ordered.mem_of_mem_last htx)
    obtain ⟨txs', resolved, hc, stored'⟩ := Indexer.confirm_stored ready stored storable confirm
    have pairs := remembers.matches ordered once filters noEmpty resolved fun r output hq =>
      stored.txOutput hq
    refine ⟨⟨_, stored', remembers.confirm ordered resolved pairs hc⟩, fun entry hentry => ?_⟩
    rcases List.mem_append.1 hentry with hentry | hentry
    · exact (before entry hentry).append_singleton ordered fun tx htx =>
        mem_allTxs_ofHeaders (List.mem_map_of_mem hentry) htx
    · obtain rfl := List.mem_singleton.1 hentry
      rw [Indexer.confirm_block confirm, hc]
      exact .of_matches pairs

/-- Take a configuration that follows addresses, none of them empty, and any course of a new indexer with
it over a store without outputs, through events, failing calls, resets and restarts. Consumers leave the
store alone, and the transactions of a block are those of its header. Of the confirmed blocks, if they are
of one ledger, the consumer was handed exactly the transactions that are followed, block by block and in
order; and these were stored as unprocessed. With all outputs kept, or with the outputs checked, they are
those that touch a followed address. -/
theorem handed_eq_followed {config : IndexerConfig} {txsOf : BlockHeader → List Tx} {κ : Type}
    {db : Database} {s : Indexer} (new : Indexer.new config db = .ok s)
    (disk : db.engine.ReachesDisk) (fresh : db.contents.get .utxos = ∅)
    (filters : config.filtersAddresses = true) (noEmpty : config.isOfInterest "" = false) (k : κ)
    (turns : List (Turn κ)) (plain : ∀ turn ∈ turns, turn.Plain txsOf) :
    let t := (Session.since s k).turns turns
    let blocks := ofHeaders txsOf t.confirmed
    Ordered blocks → SpentOnce blocks →
      (∀ h ∈ t.handed, HandsFollowed config blocks (txsOf h.1.header) h.2) ∧
      t.contents.get .unprocessedTxs =
        (db.contents.get .unprocessedTxs).insertTxs (t.handed.flatMap (·.2)) ∧
      (config.keepAllOutputs = true ∨ config.addressCheck.outputs = true →
        ∀ tx, Followed config blocks tx ↔ Touches config blocks tx) := by
  intro t blocks ordered once
  have h := (Session.Holds.new new disk (.start fresh) k).turns
    (recordsFollowed_confirmKeeps filters noEmpty txsOf db.contents) turns plain
  exact ⟨(h.holds.followed ordered once).2, h.holds.unprocessed, fun tracked _ =>
    followed_iff_touches tracked⟩

end Course

/-- The transactions of blocks by their headers. -/
def SourceBlock.txsOf (blocks : List SourceBlock) (header : BlockHeader) : List Tx :=
  ((blocks.find? fun b => b.header == header).map (·.txs)).getD []

/-- Blocks with different headers are told apart by them. -/
theorem SourceBlock.ofHeaders_txsOf {blocks : List SourceBlock}
    (distinct : (blocks.map (·.header)).Nodup) :
    ofHeaders (txsOf blocks) (blocks.map (·.header)) = blocks := by
  have htxs : ∀ b ∈ blocks, txsOf blocks b.header = b.txs := by
    intro b hb
    obtain ⟨found, hfind⟩ : ∃ found, blocks.find? (fun a => a.header == b.header) = some found :=
      Option.isSome_iff_exists.1 (List.find?_isSome.2 ⟨b, hb, by simp⟩)
    have hheader : found.header = b.header := by simpa using List.find?_some hfind
    have heq := List.inj_on_of_nodup_map distinct (List.mem_of_find?_eq_some hfind) hb hheader
    rw [txsOf, hfind, heq]
    rfl
  calc
    ofHeaders (txsOf blocks) (blocks.map (·.header))
      = blocks.map fun b => ⟨b.header, txsOf blocks b.header⟩ := List.map_map
    _ = blocks.map id := List.map_congr_left fun b hb => by rw [htxs b hb]; rfl
    _ = blocks := List.map_id blocks

/-- Inputs are checked, and the outputs of transactions that are not followed are not kept. -/
def inputsOfAlice : IndexerConfig :=
  { confirmationDepth := 1, addressesOfInterest := ["alice"], addressCheck := ⟨1⟩ }

/-- The first payment is not followed. What consumes it in its block is, and so is what consumes the output
of that in the next block. -/
theorem handed_spendingBlocks :
    let s : Indexer := { config := inputsOfAlice, database := .new .memory, window := .empty 1 }
    let t := (Session.since s ()).turns (Turn.forwards (txsOf spendingBlocks) [1, 2, 3])
    t.handed.map (fun h => h.2.map (·.hash)) = [[Fixture.txHash 1 1], [Fixture.txHash 2 0]] ∧
      (∀ h ∈ t.handed, HandsFollowed inputsOfAlice spendingBlocks
        (txsOf spendingBlocks h.1.header) h.2) ∧
      t.contents.get .unprocessedTxs = KeyMap.insertTxs ∅ (t.handed.flatMap (·.2)) := by
  intro s t
  have new : Indexer.new inputsOfAlice (.new .memory) = .ok s := by
    rw [Indexer.new, show inputsOfAlice.fault? = none by decide]
    rfl
  have confirmed : t.confirmed = [Fixture.header 1, Fixture.header 2] := by decide +kernel
  have blocks : ofHeaders (txsOf spendingBlocks) t.confirmed = spendingBlocks := by
    rw [confirmed]
    exact ofHeaders_txsOf (by decide +kernel)
  have ordered : Ordered (ofHeaders (txsOf spendingBlocks) t.confirmed) := by
    rw [blocks]
    exact consistent_spendingBlocks.ordered
  have once : SpentOnce (ofHeaders (txsOf spendingBlocks) t.confirmed) := by
    rw [blocks]
    decide +kernel
  obtain ⟨handed, unprocessed, -⟩ := handed_eq_followed new (by decide) rfl (by decide) (by decide) ()
    (Turn.forwards (txsOf spendingBlocks) [1, 2, 3]) (Turn.forwards_plain _ _) ordered once
  rw [blocks] at handed
  have hashes : t.handed.map (fun h => h.2.map (·.hash)) =
      [[Fixture.txHash 1 1], [Fixture.txHash 2 0]] := by decide +kernel
  exact ⟨hashes, handed, unprocessed⟩

/-- A payment, and what consumes it in the next block. -/
def separateBlocks : List SourceBlock :=
  [⟨Fixture.header 1, [Fixture.tx 1 0 [] [Fixture.output "alice" 5]]⟩,
    ⟨Fixture.header 2, [Fixture.tx 2 0 [⟨Fixture.txHash 1 0, 0⟩] [Fixture.output "bob" 5]]⟩]

theorem ordered_separateBlocks : Ordered separateBlocks where
  distinct := by decide +kernel
  earlier := by decide +kernel
  notOwn := by decide +kernel
  unresolved := by decide +kernel
  indexed := by decide +kernel
  storable := storable_of_plain (by decide +kernel)

/-- The payment is not followed, so its output is not stored. What consumes it touches a followed address and
is not followed either. -/
theorem touches_and_not_handed :
    let s : Indexer := { config := inputsOfAlice, database := .new .memory, window := .empty 1 }
    let t := (Session.since s ()).turns (Turn.forwards (txsOf separateBlocks) [1, 2, 3])
    let spender := Fixture.tx 2 0 [⟨Fixture.txHash 1 0, 0⟩] [Fixture.output "bob" 5]
    Indexer.new inputsOfAlice (.new .memory) = .ok s ∧ inputsOfAlice.filtersAddresses = true ∧
      inputsOfAlice.isOfInterest "" = false ∧
      ofHeaders (txsOf separateBlocks) t.confirmed = separateBlocks ∧ Ordered separateBlocks ∧
      SpentOnce separateBlocks ∧ spender ∈ allTxs separateBlocks ∧
      Touches inputsOfAlice separateBlocks spender ∧ t.handed.map (·.2) = [[], []] := by
  intro s t spender
  have confirmed : t.confirmed = [Fixture.header 1, Fixture.header 2] := by decide +kernel
  refine ⟨?_, by decide, by decide, ?_, ordered_separateBlocks, by decide +kernel,
    by decide +kernel, .inr ⟨by decide, ?_⟩, by decide +kernel⟩
  · rw [Indexer.new, show inputsOfAlice.fault? = none by decide]
    rfl
  · rw [confirmed]
    exact ofHeaders_txsOf (by decide +kernel)
  · refine ⟨Fixture.tx 1 0 [] [Fixture.output "alice" 5], by decide +kernel, ?_⟩
    exact ⟨⟨⟨Fixture.txHash 1 0, 0⟩, Fixture.output "alice" 5⟩, by decide +kernel, by decide,
      .unresolved ⟨Fixture.txHash 1 0, 0⟩, by decide +kernel, rfl⟩

end ChainIndex
