import ChainIndex.Proofs.Indexer.Followed

/-!
# Spent outputs are not listed as unused

* `IndexerConfig.RecordsSpends`: the transactions whose spends are recorded: all of them without addresses,
  with all outputs kept, or with the inputs checked; else those that pay to a followed address.
* `Current`: no output that such a transaction has consumed is stored as unused. A confirmation keeps this
  (`Current.confirm`): whatever is stored under a consumed reference is what the reference was looked up
  to, so its address is kept and it is spent.
* `not_listed_of_spent`: so no such output is listed as unused.
-/

namespace ChainIndex

/-- A configuration without fault checks a side. -/
theorem IndexerConfig.checks_side {config : IndexerConfig} (faultless : config.fault? = none) :
    config.addressCheck.inputs = true ∨ config.addressCheck.outputs = true := by
  have selected := (config.fault?_eq_none_iff.1 faultless).1
  have sides (bits : UInt8) : bits &&& 3 = bits &&& 1 ||| bits &&& 2 :=
    UInt8.eq_of_toBitVec_eq (BitVec.and_or_distrib_left (x := bits.toBitVec) (y := 1) (z := 2))
  simp only [AddressCheck.inputs, AddressCheck.outputs, bne_iff_ne]
  by_contra none
  push Not at none
  refine selected ?_
  rw [sides, none.1, none.2]
  decide

/-- What a transaction spends is recorded: it is not passed over for its inputs alone. -/
def IndexerConfig.RecordsSpends (config : IndexerConfig) (tx : Tx) : Prop :=
  config.filtersAddresses = false ∨ config.keepAllOutputs = true ∨
    config.addressCheck.inputs = true ∨ ∃ o ∈ tx.outputs, config.isOfInterest o.address = true

/-- Such a transaction is stored if an input of it was looked up to a kept address. -/
theorem IndexerConfig.RecordsSpends.stored {config : IndexerConfig} {tx : Tx}
    (h : config.RecordsSpends tx) (faultless : config.fault? = none) {io : ReferencedOutput}
    (hio : io ∈ tx.inputs) (keeps : config.keepsAddress io.output.address = true) :
    config.keepAllOutputs = true ∨ config.isRelevant tx = true := by
  cases kept : config.keepAllOutputs with
  | true => exact .inl rfl
  | false =>
    cases filters : config.filtersAddresses with
    | false => exact .inr (by simp [isRelevant, filters])
    | true =>
      have watched : config.isOfInterest io.output.address = true := by
        simpa [keepsAddress, kept, filters] using keeps
      have ofInputs (checked : config.addressCheck.inputs = true) : config.isRelevant tx = true := by
        have hany : tx.inputs.any (fun io => config.isOfInterest io.output.address) = true :=
          List.any_eq_true.2 ⟨io, hio, watched⟩
        simp [isRelevant, checked, hany]
      right
      rcases h with unfiltered | all | checked | ⟨o, ho, paid⟩
      · rw [filters] at unfiltered; cases unfiltered
      · rw [kept] at all; cases all
      · exact ofInputs checked
      · rcases checks_side faultless with checked | checked
        · exact ofInputs checked
        · have hany : tx.outputs.any (fun o => config.isOfInterest o.address) = true :=
            List.any_eq_true.2 ⟨o, ho, paid⟩
          simp [isRelevant, checked, hany]

namespace SourceBlock

/-- A transaction of the blocks whose spends are recorded consumes the output under the reference. -/
def Spent (config : IndexerConfig) (blocks : List SourceBlock) (r : OutputRef) : Prop :=
  ∃ tx ∈ allTxs blocks, config.RecordsSpends tx ∧ ∃ io ∈ tx.inputs, io.ref = r

variable {config : IndexerConfig} {blocks : List SourceBlock} {r : OutputRef}

theorem Spent.consumed (h : Spent config blocks r) : Consumed blocks r := by
  obtain ⟨tx, htx, -, consumes⟩ := h
  obtain ⟨b, hb, hmem⟩ := List.mem_flatMap.1 htx
  exact ⟨b, hb, tx, hmem, consumes⟩

/-- Where the spends of all transactions are recorded, consumed outputs are spent. -/
theorem Consumed.spent (h : Consumed blocks r) (all : ∀ tx, config.RecordsSpends tx) :
    Spent config blocks r := by
  obtain ⟨b, hb, tx, htx, consumes⟩ := h
  exact ⟨tx, List.mem_flatMap.2 ⟨b, hb, htx⟩, all tx, consumes⟩

end SourceBlock

open SourceBlock

/-- What is stored was created, for a kept address; and nothing that was spent is stored as unused. -/
structure Current (config : IndexerConfig) (blocks : List SourceBlock) (m : Utxos) : Prop where
  known : ∀ r output, m r = some output → config.keepsAddress output.address = true ∧
    ∃ o, Created blocks o ∧ o.ref = r
  spent : ∀ r output, m r = some output → Spent config blocks r → output.isUsed = true

theorem Current.empty (config : IndexerConfig) : Current config [] fun _ => none := ⟨nofun, nofun⟩

namespace Current

variable {config : IndexerConfig} {blocks : List SourceBlock} {b : SourceBlock}
  {lookup : OutputRef → Except StoreError TxOutput} {m : Utxos} {tx tx' : Tx} {txs' : List Tx}

/-- With the outputs of the block saved, what is stored under a reference was saved by the block or was there
before. -/
theorem of_saved (ordered : Ordered (blocks ++ [b])) (resolved : ResolvedTxs lookup [] b.txs txs')
    {r : OutputRef} {output : TxOutput}
    (h : (Confirmation.ofBlock config b.header txs').saved.foldl Utxos.save m r = some output) :
    (∃ o ∈ (Confirmation.ofBlock config b.header txs').saved, o.ref = r ∧ o.output = output) ∨
      m r = some output := by
  by_cases hnamed : ∃ o ∈ (Confirmation.ofBlock config b.header txs').saved, o.ref = r
  · obtain ⟨o, ho, rfl⟩ := hnamed
    rw [foldl_saved_of_mem ordered resolved m ho] at h
    exact .inl ⟨o, ho, rfl, Option.some.inj h⟩
  · rw [Utxos.foldl_save_of_forall_ne fun o ho href => hnamed ⟨o, ho, href⟩] at h
    exact .inr h

/-- Before anything is spent, only outputs of kept addresses are stored that were created. -/
theorem known_saved (h : Current config blocks m) (ordered : Ordered (blocks ++ [b]))
    (resolved : ResolvedTxs lookup [] b.txs txs') {r : OutputRef} {output : TxOutput}
    (hm : (Confirmation.ofBlock config b.header txs').saved.foldl Utxos.save m r = some output) :
    config.keepsAddress output.address = true ∧ ∃ o, Created (blocks ++ [b]) o ∧ o.ref = r := by
  rcases of_saved ordered resolved hm with ⟨o, ho, href, rfl⟩ | hm
  · obtain ⟨tx', -, -, hsaved⟩ := Confirmation.mem_saved_ofBlock.1 ho
    obtain ⟨p, -, keeps, rfl⟩ := Confirmation.mem_savedOutputs.1 hsaved
    exact ⟨keeps, _, created_append_singleton.2 (.inr (creates_of_mem_saved resolved ho)), href⟩
  · obtain ⟨keeps, o, ho, href⟩ := h.known r output hm
    exact ⟨keeps, o, created_append_singleton.2 (.inl ho), href⟩

/-- An input is looked up to the address of what is stored under its reference. -/
theorem address_of_input (h : Current config blocks m) (ordered : Ordered (blocks ++ [b]))
    (resolved : ResolvedTxs lookup [] b.txs txs')
    (hlookup : ∀ r output, lookup r = .ok output → output = (m r).getD .unknown)
    {front rest : List Tx} (htxs : b.txs = front ++ tx :: rest) {io io' : ReferencedOutput}
    (hio : io ∈ tx.inputs) (hfound : ResolvedInput lookup (front.flatMap Tx.produced).reverse io io')
    {output : TxOutput}
    (hm : (Confirmation.ofBlock config b.header txs').saved.foldl Utxos.save m io.ref =
      some output) : io'.output.address = output.address := by
  have hstored := of_saved ordered resolved hm
  rcases found_of_input ordered htxs hio hfound with ⟨producer, hproducer, hp⟩ | ⟨habsent, hl⟩
  · have hmem : producer ∈ b.txs := by simp [htxs, hproducer]
    rcases hstored with ⟨o, ho, href, rfl⟩ | hm
    · obtain ⟨creator, hcreator, p, hp', rfl⟩ := creates_iff.1 (creates_of_mem_saved resolved ho)
      have heq := ordered.produced_unique hmem hcreator hp hp' href.symm
      rw [← heq]
    · -- What was there before has the hash of an earlier block.
      obtain ⟨-, o, ho, href⟩ := h.known _ _ hm
      have hash := Tx.hash_of_mem_produced hp
      refine absurd ?_ (ordered.ne_of_created ho hmem)
      rw [href]
      exact hash
  · rcases hstored with ⟨o, ho, href, rfl⟩ | hm
    · obtain ⟨creator, hcreator, p, hp, rfl⟩ := creates_iff.1 (creates_of_mem_saved resolved ho)
      have hash : io.ref.hash = creator.hash := by rw [← href, ← Tx.hash_of_mem_produced hp]
      exact absurd href (habsent creator (ordered.mem_front htxs hcreator hio hash) p hp)
    · have heq := hlookup _ _ hl
      rw [hm, Option.getD_some] at heq
      rw [heq]

/-- What a transaction of the block consumes is spent, if it is stored and the spends of the transaction are
recorded. -/
theorem mem_spent (h : Current config blocks m) (faultless : config.fault? = none)
    (ordered : Ordered (blocks ++ [b])) (resolved : ResolvedTxs lookup [] b.txs txs')
    (hlookup : ∀ r output, lookup r = .ok output → output = (m r).getD .unknown)
    (htx : tx ∈ b.txs) (records : config.RecordsSpends tx) {io : ReferencedOutput}
    (hio : io ∈ tx.inputs) {output : TxOutput}
    (hm : (Confirmation.ofBlock config b.header txs').saved.foldl Utxos.save m io.ref =
      some output) : io.ref ∈ (Confirmation.ofBlock config b.header txs').spent := by
  obtain ⟨front, rest, htxs⟩ := List.append_of_mem htx
  obtain ⟨tx', htx', hr⟩ := resolved.exists_of_append htxs
  rw [List.append_nil] at hr
  obtain ⟨io', hio', hfound⟩ := hr.inputs_of io hio
  have haddress := h.address_of_input ordered resolved hlookup htxs hio hfound hm
  have keeps : config.keepsAddress io'.output.address = true := by
    rw [haddress]
    exact (h.known_saved ordered resolved hm).1
  have records' : config.RecordsSpends tx' := by
    rw [hr.eq_inputs]
    exact records
  exact Confirmation.mem_spent_ofBlock.2 ⟨tx', htx', records'.stored faultless hio' keeps,
    Confirmation.mem_spentOutputs.2 ⟨io', hio', keeps, hfound.1⟩⟩

/-- A confirmation keeps the store current. -/
theorem confirm (h : Current config blocks m) (faultless : config.fault? = none)
    (ordered : Ordered (blocks ++ [b])) (resolved : ResolvedTxs lookup [] b.txs txs')
    (hlookup : ∀ r output, lookup r = .ok output → output = (m r).getD .unknown)
    {c : Confirmation} (hc : c = Confirmation.ofBlock config b.header txs') :
    Current config (blocks ++ [b])
      (c.spent.foldl (Utxos.spend config.softDelete) (c.saved.foldl Utxos.save m)) := by
  subst hc
  refine ⟨fun r output hr => ?_, fun r output hr hspent => ?_⟩
  · obtain ⟨saved, hsaved, same⟩ := Utxos.exists_of_foldl_spend hr
    have haddress : output.address = saved.address := by rcases same with rfl | rfl <;> rfl
    rw [haddress]
    exact h.known_saved ordered resolved hsaved
  · obtain ⟨saved, hsaved, same⟩ := Utxos.exists_of_foldl_spend hr
    obtain ⟨tx, htx, records, io, hio, rfl⟩ := hspent
    rcases mem_allTxs_append_singleton.1 htx with before | here
    · -- Spent before: the block does not create it anew, and nobody takes the mark off.
      have spentBefore : Spent config blocks io.ref := ⟨tx, before, records, io, hio, rfl⟩
      have hold : m io.ref = some saved := by
        refine (of_saved ordered resolved hsaved).resolve_left ?_
        rintro ⟨o, ho, href, -⟩
        exact ordered.not_consumed (creates_of_mem_saved resolved ho) (href ▸ spentBefore.consumed)
      have used := h.spent _ _ hold spentBefore
      rcases same with rfl | rfl
      · exact used
      · rfl
    · have hmem := h.mem_spent faultless ordered resolved hlookup here records hio hsaved
      rw [Utxos.foldl_spend, if_pos hmem, hsaved] at hr
      cases soft : config.softDelete with
      | false => rw [soft] at hr; cases hr
      | true => rw [soft] at hr; cases hr; rfl

end Current

section Chain

variable {config : IndexerConfig} {db₀ db : Database} {blocks : List SourceBlock}

/-- One more block that is confirmed with success. -/
theorem ConfirmedChain.confirm_isOk {s : Indexer}
    (chain : ConfirmedChain config db₀ blocks s.database) (ready : s.Ready config) (b : SourceBlock)
    (ok : (s.confirm b.header b.txs).1.isOk = true) :
    ConfirmedChain config db₀ (blocks ++ [b]) (s.confirm b.header b.txs).2.database ∧
      (s.confirm b.header b.txs).2.Ready config := by
  cases hc : (s.confirm b.header b.txs).1 with
  | error e => rw [hc] at ok; cases ok
  | ok c =>
    have confirmed : s.confirm b.header b.txs = (.ok c, (s.confirm b.header b.txs).2) := by rw [← hc]
    exact ⟨chain.confirm ready b confirmed, ready.confirm confirmed⟩

theorem ConfirmedChain.current (chain : ConfirmedChain config db₀ blocks db)
    (fresh : db₀.contents.get .utxos = ∅) (ordered : Ordered blocks) :
    ∃ m : Utxos, m.StoredIn db.contents ∧ Current config blocks m := by
  induction chain with
  | start => exact ⟨_, .empty fresh, .empty config⟩
  | store _ db' same ih =>
    obtain ⟨m, stored, current⟩ := ih ordered
    exact ⟨m, stored.congr same, current⟩
  | confirm _ ready b hc ih =>
    obtain ⟨m, stored, current⟩ := ih ordered.front
    have storable : ∀ tx ∈ b.txs, ∀ o ∈ tx.outputs, o.Storable := fun tx htx =>
      ordered.storable tx (Ordered.mem_of_mem_last htx)
    obtain ⟨txs', resolved, heq, stored'⟩ := Indexer.confirm_stored ready stored storable hc
    exact ⟨_, stored', current.confirm ready.faultless ordered resolved
      (fun r output hq => stored.txOutput hq) heq⟩

/-- A store that had no outputs, after any blocks of a ledger were confirmed: the outputs listed for an
address as unused are none that a transaction of the blocks has consumed whose spends are recorded.
Without addresses, with all outputs kept, or with the inputs checked, that is every transaction; and
else every one that pays to a followed address. -/
theorem not_listed_of_spent (chain : ConfirmedChain config db₀ blocks db)
    (fresh : db₀.contents.get .utxos = ∅) (ordered : Ordered blocks) (address : String)
    (usable : db.isPoisoned = false)
    (readable : db.engine.faults.scan .utxos .all .ascending = none) :
    ∃ found, db.outputsAt address true = .ok found ∧
      (∀ o ∈ found, ¬ Spent config blocks o.ref) ∧
      (config.filtersAddresses = false ∨ config.keepAllOutputs = true ∨
        config.addressCheck.inputs = true → ∀ o ∈ found, ¬ Consumed blocks o.ref) := by
  obtain ⟨m, stored, current⟩ := chain.current fresh ordered
  obtain ⟨found, hfound, -, hmem⟩ := stored.outputsAt usable readable address true
  have unspent : ∀ o ∈ found, ¬ Spent config blocks o.ref := fun o ho spent => by
    obtain ⟨hm, -, unused⟩ := (hmem o).1 ho
    have used := current.spent _ _ hm spent
    rw [unused rfl] at used
    cases used
  refine ⟨found, hfound, unspent, fun recorded o ho consumed => unspent o ho ?_⟩
  refine consumed.spent fun tx => ?_
  rcases recorded with unfiltered | kept | checked
  · exact .inl unfiltered
  · exact .inr (.inl kept)
  · exact .inr (.inr (.inl checked))

end Chain

/-- Outputs are checked, and the outputs of transactions that are not followed are not kept. -/
def outputsOfAlice : IndexerConfig :=
  { confirmationDepth := 1, addressesOfInterest := ["alice"], addressCheck := ⟨2⟩ }

/-- Every transaction pays to the followed address, so all that they consume is recorded, within a block and
across blocks; what is left is listed. -/
theorem not_listed_spendingBlocks :
    let s : Indexer := { config := outputsOfAlice, database := .new .memory, window := .empty 1 }
    let db := (spendingBlocks.foldl (fun s b => (s.confirm b.header b.txs).2) s).database
    ∃ found, db.outputsAt "alice" true = .ok found ∧
      found.map (·.ref) = [⟨Fixture.txHash 2 0, 0⟩] ∧
      (∀ o ∈ found, ¬ Spent outputsOfAlice spendingBlocks o.ref) ∧
      Spent outputsOfAlice spendingBlocks ⟨Fixture.txHash 1 0, 0⟩ ∧
      Spent outputsOfAlice spendingBlocks ⟨Fixture.txHash 1 1, 0⟩ := by
  intro s db
  have ready : s.Ready outputsOfAlice := ⟨rfl, by decide, rfl, rfl⟩
  obtain ⟨one, readyOne⟩ :=
    ConfirmedChain.start.confirm_isOk ready spendingBlocks[0] (by decide +kernel)
  obtain ⟨chain, -⟩ := one.confirm_isOk readyOne spendingBlocks[1] (by decide +kernel)
  have hrefs : (db.outputsAt "alice" true).toOption.map (·.map (·.ref)) =
      some [⟨Fixture.txHash 2 0, 0⟩] := by decide +kernel
  obtain ⟨found, hfound, unspent, -⟩ := not_listed_of_spent chain rfl
    consistent_spendingBlocks.ordered "alice" (by decide +kernel) (by decide +kernel)
  rw [show db.outputsAt "alice" true = .ok found from hfound] at hrefs
  refine ⟨found, hfound, Option.some.inj hrefs, unspent, ?_, ?_⟩
  · exact ⟨Fixture.tx 1 1 [⟨Fixture.txHash 1 0, 0⟩] [Fixture.output "alice" 4], by decide +kernel,
      .inr (.inr (.inr ⟨_, List.mem_singleton_self _, by decide⟩)), _, List.mem_singleton_self _, rfl⟩
  · exact ⟨Fixture.tx 2 0 [⟨Fixture.txHash 1 1, 0⟩] [Fixture.output "alice" 3], by decide +kernel,
      .inr (.inr (.inr ⟨_, List.mem_singleton_self _, by decide⟩)), _, List.mem_singleton_self _, rfl⟩

/-- The payment is followed and its output stored. What consumes it pays to another address, so it is not
followed and its spend is not recorded: the output is still listed as unused. -/
theorem listed_and_consumed :
    let s : Indexer := { config := outputsOfAlice, database := .new .memory, window := .empty 1 }
    let db := (separateBlocks.foldl (fun s b => (s.confirm b.header b.txs).2) s).database
    let paid : ReferencedOutput :=
      ⟨⟨Fixture.txHash 1 0, 0⟩, { Fixture.output "alice" 5 with slot := 1 }⟩
    outputsOfAlice.fault? = none ∧ s.database.contents = .empty ∧
      ConfirmedChain outputsOfAlice s.database separateBlocks db ∧ Ordered separateBlocks ∧
      SpentOnce separateBlocks ∧ (db.outputsAt "alice" true).toOption = some [paid] ∧
      Consumed separateBlocks paid.ref := by
  intro s db paid
  have ready : s.Ready outputsOfAlice := ⟨rfl, by decide, rfl, rfl⟩
  obtain ⟨one, readyOne⟩ :=
    ConfirmedChain.start.confirm_isOk ready separateBlocks[0] (by decide +kernel)
  obtain ⟨chain, -⟩ := one.confirm_isOk readyOne separateBlocks[1] (by decide +kernel)
  exact ⟨by decide, rfl, chain, ordered_separateBlocks, by decide +kernel, by decide +kernel,
    by decide +kernel⟩

end ChainIndex
