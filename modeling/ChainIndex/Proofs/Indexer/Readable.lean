import ChainIndex.Proofs.Indexer.Course
import ChainIndex.Proofs.Indexer.Outputs
import ChainIndex.Proofs.Storage.Intact

/-!
# What is stored can always be read

* `resolveInputs_legible`: looking up inputs is legible, and transactions whose strings and lists have
  lengths below 2^64 still have them with their inputs looked up. So is a confirmation
  (`Indexer.confirm_intact`), and what it hands to the consumer can be stored.
* `Database.Used`: what can become of a store through batches, marking and failures. A turn is
  `Turn.Regular` if everybody uses the store like that; it keeps that every entry can be read
  (`Session.Sane.turn`).
* `stored_readable`: so every entry always has the form of its bucket, and no query, no change and no call of
  the indexer finds one that cannot be read.
-/

namespace ChainIndex

variable {κ : Type}

/-! ## Confirmations -/

theorem Legible.mapM {α β : Type} {f : α → Except StoreError β} {P : β → Prop} {as : List α}
    (h : ∀ a ∈ as, Legible P (f a)) :
    Legible (fun bs => bs.length = as.length ∧ ∀ b ∈ bs, P b) (as.mapM f) := by
  induction as with
  | nil => exact ⟨rfl, nofun⟩
  | cons a as ih =>
    rw [List.mapM_cons]
    refine (h a List.mem_cons_self).bind fun b hb => ?_
    refine (ih fun a' ha' => h a' (List.mem_cons_of_mem _ ha')).bind fun bs hbs => ?_
    exact ⟨congrArg (· + 1) hbs.1, List.forall_mem_cons.2 ⟨hb, hbs.2⟩⟩

section Resolve

variable {lookup : OutputRef → Except StoreError TxOutput}
  (lookups : ∀ ref, Legible TxOutput.Storable (lookup ref))

include lookups

theorem resolveInput_legible {produced : List ReferencedOutput} {input : ReferencedOutput}
    (hproduced : ∀ o ∈ produced, o.output.Storable) (hinput : input.output.Storable) :
    Legible (fun io => io.output.Storable) (resolveInput lookup produced input) := by
  unfold resolveInput
  split
  · split
    · rename_i output hp
      exact hproduced _ (producedOutput?_eq_some hp)
    · exact (lookups input.ref).bind fun output storable => storable
  · exact hinput

theorem resolveFrom_legible {produced : List ReferencedOutput} {txs : List Tx}
    (hproduced : ∀ o ∈ produced, o.output.Storable) (storable : ∀ tx ∈ txs, tx.Storable) :
    Legible (fun txs' => txs'.length = txs.length ∧ ∀ tx ∈ txs', tx.Storable)
      (resolveFrom lookup produced txs) := by
  induction txs generalizing produced with
  | nil => exact ⟨rfl, nofun⟩
  | cons tx txs ih =>
    obtain ⟨htx, htxs⟩ := List.forall_mem_cons.1 storable
    have hproduced' : ∀ o ∈ tx.produced.reverse ++ produced, o.output.Storable := by
      intro o ho
      rcases List.mem_append.1 ho with ho | ho
      · obtain ⟨i, hi, rfl⟩ := Tx.mem_produced.1 (List.mem_reverse.1 ho)
        exact htx.output _ (List.getElem_mem hi)
      · exact hproduced o ho
    rw [resolveFrom]
    refine (Legible.mapM fun io hio => resolveInput_legible lookups hproduced (htx.input io hio)).bind
      fun inputs hinputs => ?_
    refine (ih hproduced' htxs).bind fun rest hrest => ?_
    refine ⟨congrArg (· + 1) hrest.1, List.forall_mem_cons.2 ⟨⟨htx.metadata, ?_, hinputs.2,
      htx.outputs, htx.output⟩, hrest.2⟩⟩
    rw [hinputs.1]
    exact htx.inputs

theorem resolveInputs_legible {txs : List Tx} (storable : ∀ tx ∈ txs, tx.Storable) :
    Legible (fun txs' => txs'.length = txs.length ∧ ∀ tx ∈ txs', tx.Storable)
      (resolveInputs lookup txs) := resolveFrom_legible lookups nofun storable

end Resolve

/-- What a block contributes can be stored: its record and the transactions that are followed. -/
structure Confirmation.Storable (c : Confirmation) : Prop where
  block : c.block.Storable
  txs : ∀ tx ∈ c.txs, tx.Storable
  saved : ∀ o ∈ c.saved, o.output.Storable

namespace Confirmation

theorem storable_block {config : IndexerConfig} {header : BlockHeader} {txs : List Tx}
    (few : txs.length < UInt64.size) : (ofBlock config header txs).block.Storable := by
  refine ⟨Nat.lt_of_le_of_lt ?_ few⟩
  simp only [ofBlock, ConfirmedBlock.ofHeader, List.length_map]
  split
  · exact Nat.le_refl _
  · exact List.length_filter_le ..

theorem storable_ofBlock {config : IndexerConfig} {header : BlockHeader} {txs : List Tx}
    (few : txs.length < UInt64.size) (storable : ∀ tx ∈ txs, tx.Storable) :
    (ofBlock config header txs).Storable where
  block := storable_block few
  txs tx htx := storable tx (List.mem_filter.1 htx).1
  saved o ho := by
    obtain ⟨tx, htx, -, ho⟩ := mem_saved_ofBlock.1 ho
    obtain ⟨p, hp, -, rfl⟩ := mem_savedOutputs.1 ho
    obtain ⟨i, hi, rfl⟩ := Tx.mem_produced.1 hp
    exact ((storable tx htx).output _ (List.getElem_mem hi)).withSlot header.slot

theorem Storable.ops {c : Confirmation} (h : c.Storable) (soft : Bool) :
    ∀ op ∈ c.ops soft, op.Storable := by
  simp only [Confirmation.ops, List.forall_mem_cons]
  exact ⟨h.txs, h.block, trivial, h.saved, trivial, List.forall_mem_nil _⟩

end Confirmation

/-- Whether an error of the indexer says that something stored cannot be read. -/
def IndexerError.isUnreadable : IndexerError → Bool
  | store cause => cause.isUnreadable
  | fetch _ _ | consumer _ _ | windowOverflow _ | fatalRollback _ _ | config _ | runnerClosed => false

namespace Indexer

/-- A confirmation is legible, and whatever comes of it, the entries can be read afterwards. -/
theorem confirm_intact {config : IndexerConfig} {s : Indexer} (ready : s.Ready config)
    (h : s.database.engine.Intact) (header : BlockHeader) {txs : List Tx}
    (few : txs.length < UInt64.size) (storable : ∀ tx ∈ txs, tx.Storable) :
    (∀ e, (s.confirm header txs).1 = .error e → e.isUnreadable = false) ∧
      (∀ c, (s.confirm header txs).1 = .ok c → c.Storable) ∧
      (s.confirm header txs).2.database.engine.Intact := by
  have hresolved := resolveInputs_legible (Database.txOutput_legible h) storable
  unfold confirm
  split
  · rename_i cause hr
    rw [hr] at hresolved
    refine ⟨?_, nofun, h⟩
    rintro _ ⟨⟩
    exact hresolved
  · rename_i resolved hr
    rw [hr] at hresolved
    have hc : (Confirmation.ofBlock s.config header resolved).Storable :=
      Confirmation.storable_ofBlock (hresolved.1.symm ▸ few) hresolved.2
    rw [ready.writer_eq]
    have hops := BatchWriter.ops_of_pushed
      ((Confirmation.ofBlock s.config header resolved).ops s.config.softDelete)
    obtain ⟨answer, intact⟩ := Database.execute_intact h (hops.symm ▸ hc.ops s.config.softDelete)
    simp only
    split
    · rename_i e writer database hx
      rw [hx] at answer intact
      refine ⟨?_, nofun, intact⟩
      rintro _ ⟨⟩
      exact answer
    · rename_i writer database hx
      rw [hx] at intact
      refine ⟨nofun, ?_, intact⟩
      rintro _ ⟨⟩
      exact hc

/-- Whatever faults there are: a confirmation that succeeds leaves entries that can be read, and hands over
what can be stored. -/
theorem storable_of_confirm {config : IndexerConfig} {s t : Indexer} {header : BlockHeader}
    {txs : List Tx} {c : Confirmation} (ready : s.Ready config)
    (intact : s.database.contents.Intact) (few : txs.length < UInt64.size)
    (storable : ∀ tx ∈ txs, tx.Storable) (h : s.confirm header txs = (.ok c, t)) :
    c.Storable ∧ t.database.contents.Intact := by
  -- Without faults the same confirmation comes to the same.
  have ready' : Ready config
      { config
        database := { engine := ⟨.memory, s.database.contents, .never⟩ }
        window := .empty config.confirmationDepth.toNat } := ⟨rfl, ready.faultless, rfl, rfl⟩
  obtain ⟨t', ht', same⟩ := confirm_of_contents ready h ready' rfl rfl rfl
  obtain ⟨-, stored, left⟩ := confirm_intact ready' ⟨.never, intact⟩ header few storable
  rw [ht'] at stored left
  exact ⟨stored c rfl, same ▸ left.contents⟩

end Indexer

/-! ## Regular use -/

/-- The transactions of a block, and their number, can be stored. -/
def BlockSource.Storable (source : BlockSource) : Prop :=
  ∀ header txs, source header = .ok txs → txs.length < UInt64.size ∧ ∀ tx ∈ txs, tx.Storable

/-- What can become of a store in use. -/
inductive Database.Used (db : Database) : Database → Prop
  | unused : Used db db
  /-- A batch is carried out; it may fail. -/
  | batch {db' : Database} (h : Used db db') (w : BatchWriter)
      (storable : ∀ op ∈ w.ops, op.Storable) : Used db (w.execute db').2.2
  /-- Transactions are marked as processed, or the attempt fails. -/
  | mark {db' : Database} (h : Used db db') (txs : List Tx) (storable : ∀ tx ∈ txs, tx.Storable) :
      Used db (db'.markProcessed txs).2
  /-- Calls begin or cease to fail. -/
  | faults {db' : Database} (h : Used db db') (faults : Faults) (tame : faults.Tame) :
      Used db (db'.withFaults faults)
  /-- A scope of somebody else is left without an answer. -/
  | poisoned {db' : Database} (h : Used db db') : Used db { db' with isPoisoned := true }
  | reopened {db' : Database} (h : Used db db') (clear : Bool) : Used db (db'.reopen clear)

theorem Database.Used.intact {db db' : Database} (used : db.Used db') (h : db.engine.Intact) :
    db'.engine.Intact := by
  induction used with
  | unused => exact h
  | batch _ w storable ih => exact (execute_intact ih storable).2
  | mark _ txs storable ih => exact (markProcessed_intact ih storable).2
  | faults _ faults tame ih => exact ⟨tame, ih.contents⟩
  | poisoned _ ih => exact ih
  | reopened _ clear ih => exact reopen_intact ih clear

/-- A consumer that does no more than use the store with what it is handed. -/
def Consumer.Regular (consumer : Consumer κ) : Prop :=
  ∀ (block : ConfirmedBlock) (txs : List Tx) (k : κ) (db : Database), db.engine.Intact →
    block.Storable → (∀ tx ∈ txs, tx.Storable) → db.Used (consumer block txs k db).2.2

/-- Others do no more than use the store. -/
def RegularUse (store : Database → Database) : Prop :=
  ∀ db : Database, db.engine.Intact → db.Used (store db)

/-- A turn on which blocks can be stored and everybody does no more than use the store. -/
def Turn.Regular : Turn κ → Prop
  | event c => c.source.Storable ∧ c.consumer.Regular ∧ RegularUse c.store
  | reset store | restart store => RegularUse store

namespace Indexer

/-- An announced header is answered legibly. If the consumer does no more than use the store, the entries
can be read afterwards. -/
theorem rollForward_intact {config : IndexerConfig} {s : Indexer} (ready : s.Ready config)
    (h : s.database.engine.Intact) {source : BlockSource} (storable : source.Storable)
    (consumer : Consumer κ) (header : BlockHeader) (k : κ) :
    (∀ e, (s.rollForward source consumer header k).1 = .error e → e.isUnreadable = false) ∧
      (consumer.Regular →
        (s.rollForward source consumer header k).2.1.database.engine.Intact) := by
  unfold rollForward
  split
  · rename_i room
    obtain ⟨window, hpush, -, -⟩ := push_of_room header (by simpa using room)
    rw [hpush]
    exact ⟨nofun, fun _ => h⟩
  · split
    · exact ⟨by rintro _ ⟨⟩; rfl, fun _ => h⟩
    · rename_i oldest hpeek
      obtain ⟨rest, pending⟩ : ∃ rest, s.pending = oldest :: rest := List.head?_eq_some_iff.1 hpeek
      split
      · exact ⟨by rintro _ ⟨⟩; rfl, fun _ => h⟩
      · rename_i txs fetched
        obtain ⟨few, storable⟩ := storable oldest txs fetched
        obtain ⟨answer, stored, intact⟩ := confirm_intact ready h oldest few storable
        split
        · rename_i e t confirm
          rw [confirm] at answer intact
          exact ⟨by rintro _ ⟨⟩; exact answer e rfl, fun _ => intact⟩
        · rename_i c t confirm
          rw [confirm] at stored intact
          obtain ⟨window, hpush, -, -⟩ := push_confirmed header pending confirm
          rw [hpush]
          have told := fun regular : consumer.Regular =>
            (regular c.block c.txs k t.database intact (stored c rfl).block (stored c rfl).txs).intact
              intact
          simp only
          split
          · exact ⟨nofun, told⟩
          · exact ⟨by rintro _ ⟨⟩; rfl, told⟩

theorem reset_legible {s : Indexer} (h : s.database.engine.Intact) :
    ∀ e, s.reset.1 = .error e → e.isUnreadable = false := by
  have hpoint := Database.latestPoint?_legible h
  unfold reset
  split
  · rename_i e he
    rw [he] at hpoint
    rintro _ ⟨⟩
    exact hpoint
  · exact nofun

end Indexer

namespace Session

variable {config : IndexerConfig} {t : Session κ}

/-- A session between two turns over a store whose entries can be read. -/
structure Sane (config : IndexerConfig) (t : Session κ) : Prop where
  ready : t.indexer.Ready config
  intact : t.indexer.database.engine.Intact

theorem Sane.store (h : t.Sane config) {store : Database → Database} (regular : RegularUse store) :
    Sane config { t with indexer := { t.indexer with database := store t.indexer.database } } :=
  ⟨h.ready.store _, (regular _ h.intact).intact h.intact⟩

theorem Sane.turn (h : t.Sane config) {turn : Turn κ} (regular : turn.Regular) :
    (t.turn turn).Sane config := by
  refine ⟨ready_turn h.ready turn, ?_⟩
  cases turn with
  | event c =>
    obtain ⟨⟨source, consumer, store⟩, event⟩ := c
    obtain ⟨storable, consumerRegular, storeRegular⟩ := regular
    have hs := h.store storeRegular
    cases event with
    | rollForward header =>
      refine (Indexer.rollForward_intact hs.ready hs.intact storable consumer.logged header _).2 ?_
      exact fun block txs k db => consumerRegular block txs k.1 db
    | rollBackward point =>
      have same := Indexer.rollBackward_database
        { t.indexer with database := store t.indexer.database } point
      exact (congrArg (·.engine.Intact) same).mpr hs.intact
  | reset store =>
    have hs := h.store regular
    simp only [Session.turn]
    obtain ⟨e, -, hr⟩ | ⟨stored, point, -, -, hr⟩ :=
      Indexer.reset_cases { t.indexer with database := store t.indexer.database } <;> rw [hr]
    · exact hs.intact
    · exact hs.intact
  | restart store =>
    have hs := h.store regular
    simp only [Session.turn]
    split
    · rename_i indexer hnew
      rw [Indexer.new_ok hnew]
      exact hs.intact
    · exact h.intact

theorem Sane.turns (h : t.Sane config) {turns : List (Turn κ)}
    (regular : ∀ turn ∈ turns, turn.Regular) : (t.turns turns).Sane config := by
  induction turns generalizing t with
  | nil => exact h
  | cons turn turns ih =>
    exact ih (h.turn (regular turn List.mem_cons_self)) fun u hu =>
      regular u (List.mem_cons_of_mem _ hu)

end Session

/-- An entry can be read: the key has the length of its bucket, the value is a record of the type of the
bucket, and what the record says of itself gives the key back. -/
def Bucket.Readable (key value : Bytes) : Bucket → Prop
  | utxos => key.length = 36 ∧ (∃ ref, Key.toRef key = .ok ref) ∧
      ∃ o : TxOutput, Cbor.Record.decode value = .ok o
  | latestPoint => key = Key.latestPoint ∧ ∃ p : Point, Cbor.Record.decode value = .ok p
  | unprocessedTxs | processedTxs => key.length = 12 ∧ ∃ tx : Tx, Cbor.Record.decode value = .ok tx ∧
      Key.toPosition key = .ok (tx.blockSlot, tx.indexInBlock) ∧ tx.key = key
  | confirmedBlocks => key.length = 8 ∧ ∃ b : ConfirmedBlock, Cbor.Record.decode value = .ok b ∧
      Key.toSlot key = .ok b.slot ∧ b.key = key

theorem Bucket.Holds.readable {bucket : Bucket} {key value : Bytes} (h : bucket.Holds key value) :
    bucket.Readable key value := by
  cases bucket with
  | utxos =>
    obtain ⟨ref, o, storable, rfl, rfl⟩ := h
    refine ⟨?_, ⟨ref, Key.toRef_key ref⟩, o, TxOutput.decode_encode storable⟩
    simp [OutputRef.key, Key.ofRef, ref.hash.length_bytes]
  | latestPoint =>
    obtain ⟨p, rfl, rfl⟩ := h
    exact ⟨rfl, p, p.decode_encode⟩
  | unprocessedTxs | processedTxs =>
    obtain ⟨tx, storable, rfl, rfl⟩ := h
    refine ⟨?_, tx, Tx.decode_encode storable, Key.toPosition_key tx, rfl⟩
    simp [Tx.key, Key.ofPosition]
  | confirmedBlocks =>
    obtain ⟨b, storable, rfl, rfl⟩ := h
    exact ⟨length_bigEndian .., b, ConfirmedBlock.decode_encode storable, Key.toSlot_key b, rfl⟩

/-- Take a fresh store, and any batches, marking and turns of an indexer over it, all of which may fail, on
records whose strings and lists have lengths below 2^64. The engine reports failures of its own only.

Then every key has the form of its bucket, every value is a record of the type of the bucket, and it gives
back its key. No query, no batch, no marking, no reset and no announced header is answered that something
stored cannot be read. -/
theorem stored_readable {config : IndexerConfig} {medium : Medium} {db : Database} {s : Indexer}
    (opened : (Database.new medium).Used db) (new : Indexer.new config db = .ok s) (k : κ)
    {turns : List (Turn κ)} (regular : ∀ turn ∈ turns, turn.Regular) {db' : Database}
    (used : ((Session.since s k).turns turns).indexer.database.Used db') :
    (∀ bucket key value, db'.contents.lookup bucket key = some value → bucket.Readable key value) ∧
    (Legible (fun _ => True) db'.latestPoint? ∧
      (∀ ref, Legible (fun _ => True) (db'.txOutput ref)) ∧
      (∀ max, Legible (fun _ => True) (db'.latestBlocks max)) ∧
      (∀ slot max, Legible (fun _ => True) (db'.blocksFrom slot max)) ∧
      (∀ max, Legible (fun _ => True) (db'.unprocessedTxs max)) ∧
      (∀ max, Legible (fun _ => True) (db'.processedTxs max)) ∧
      ∀ address onlyUnused, Legible (fun _ => True) (db'.outputsAt address onlyUnused)) ∧
    (∀ w : BatchWriter, (∀ op ∈ w.ops, op.Storable) →
      Legible (fun _ => True) (w.execute db').1) ∧
    (∀ txs : List Tx, (∀ tx ∈ txs, tx.Storable) →
      Legible (fun _ => True) (db'.markProcessed txs).1) ∧
    let t : Indexer := { ((Session.since s k).turns turns).indexer with database := db' }
    (∀ e, t.reset.1 = .error e → e.isUnreadable = false) ∧
    ∀ (source : BlockSource) (consumer : Consumer κ) (header : BlockHeader) (k : κ),
      source.Storable → ∀ e, (t.rollForward source consumer header k).1 = .error e →
        e.isUnreadable = false := by
  have sane : (Session.since s k).Sane config := by
    refine ⟨.new new, ?_⟩
    rw [show (Session.since s k).indexer = s from rfl, Indexer.new_ok new]
    exact opened.intact (.new medium)
  have after := sane.turns regular
  have h : db'.engine.Intact := used.intact after.intact
  refine ⟨fun bucket key value hl => (h.contents bucket key value hl).readable, ?_, ?_, ?_, ?_, ?_⟩
  · exact ⟨db'.latestPoint?_legible h, fun ref => (db'.txOutput_legible h ref).imp fun _ _ => trivial,
      db'.latestBlocks_legible h, db'.blocksFrom_legible h,
      fun max => (db'.firstTxs_legible h (.inl rfl) max).imp fun _ _ => trivial,
      fun max => (db'.firstTxs_legible h (.inr rfl) max).imp fun _ _ => trivial,
      db'.outputsAt_legible h⟩
  · exact fun w storable => (Database.execute_intact h storable).1
  · exact fun txs storable => (Database.markProcessed_intact h storable).1
  · exact Indexer.reset_legible h
  · exact fun source consumer header k storable =>
      (Indexer.rollForward_intact (after.ready.store db') h storable consumer header k).1

/-! ## A run -/

theorem Fixture.storable_output {address : String} (amount : UInt64)
    (short : (Utf8.encode address).length < UInt64.size) : (output address amount).Storable :=
  ⟨short, by simp [output, UInt64.size], nofun, nofun⟩

theorem Fixture.storable_tx (slot : UInt64) (index : UInt32) {inputs : List OutputRef}
    {outputs : List TxOutput} (fewInputs : inputs.length < UInt64.size)
    (fewOutputs : outputs.length < UInt64.size) (storable : ∀ o ∈ outputs, o.Storable) :
    (tx slot index inputs outputs).Storable := by
  refine ⟨nofun, by simpa [tx] using fewInputs, fun io hio => ?_, fewOutputs, storable⟩
  obtain ⟨ref, -, rfl⟩ := List.mem_map.1 hio
  exact .unknown

/-- A block that pays, and spends what the block of the first slot paid. -/
def spendingTx (header : BlockHeader) : Tx :=
  Fixture.tx header.slot 0 [⟨Fixture.txHash 1 0, 0⟩] [Fixture.output "alice" 5]

theorem storable_spendingTx (header : BlockHeader) : (spendingTx header).Storable :=
  Fixture.storable_tx _ _ (by decide) (by decide)
    (List.forall_mem_singleton.2 (Fixture.storable_output 5 (by decide)))

/-- A commit fails, the consumer marks what it is handed, and the store is opened again. -/
def markingTurns : List (Turn Unit) :=
  let works : Surroundings Unit :=
    { source := fun header => .ok [spendingTx header]
      consumer := fun _ txs k db => (.ok (), k, (db.markProcessed txs).2)
      store := Database.withFaults .never }
  let full : Surroundings Unit :=
    { works with store := Database.withFaults { commit := fun _ => some (.io "disk full") } }
  let forward (slot : UInt64) : ChainEvent := .rollForward (Fixture.header slot)
  [.event ⟨works, forward 1⟩, .event ⟨full, forward 2⟩, .event ⟨works, forward 2⟩,
    .event ⟨works, forward 3⟩, .restart (·.reopen false)]

theorem markingTurns_regular : ∀ turn ∈ markingTurns, turn.Regular := by
  have source : BlockSource.Storable fun header => .ok [spendingTx header] := by
    rintro header _ ⟨⟩
    exact ⟨(by decide : 1 < UInt64.size), List.forall_mem_singleton.2 (storable_spendingTx header)⟩
  have consumer : Consumer.Regular fun _ txs (k : Unit) db => (.ok (), k, (db.markProcessed txs).2) :=
    fun _ txs _ _ _ _ storable => .mark .unused txs storable
  have works : RegularUse (Database.withFaults .never) := fun _ _ => .faults .unused _ .never
  have tame : Faults.Tame { commit := fun _ => some (.io "disk full") } :=
    ⟨fun _ _ _ _ h => (nomatch h), fun _ _ _ _ h => (nomatch h), by rintro _ _ ⟨⟩; rfl, nofun⟩
  have full : RegularUse (Database.withFaults { commit := fun _ => some (.io "disk full") }) :=
    fun _ _ => .faults .unused _ tame
  simp only [markingTurns, List.forall_mem_cons, Turn.Regular]
  exact ⟨⟨source, consumer, works⟩, ⟨source, consumer, full⟩, ⟨source, consumer, works⟩,
    ⟨source, consumer, works⟩, fun _ _ => .reopened .unused false, nofun⟩

/-- The blocks of two slots and their transactions are stored, the latter as processed. Every entry can be
read, and marking an output of the first block as used once more does not find one that cannot. -/
theorem stored_readable_markingTurns :
    let s : Indexer :=
      { config := { confirmationDepth := 1, softDelete := true }
        database := .new (.durable true)
        window := .empty 1 }
    let db := ((Session.since s ()).turns markingTurns).indexer.database
    (Bucket.all.map fun bucket => (db.contents.get bucket).entries.length) = [2, 1, 0, 2, 2] ∧
      (∀ bucket key value, db.contents.lookup bucket key = some value →
        bucket.Readable key value) ∧
      Legible (fun _ => True)
        ((BatchWriter.empty.push (.removeOutputs [⟨Fixture.txHash 1 0, 0⟩] true)).execute db).1 := by
  intro s db
  have new : Indexer.new { confirmationDepth := 1, softDelete := true } (.new (.durable true)) =
      .ok s := rfl
  obtain ⟨readable, -, batches, -⟩ :=
    stored_readable .unused new () markingTurns_regular .unused
  exact ⟨by decide +kernel, readable, batches _ (List.forall_mem_singleton.2 trivial)⟩

end ChainIndex
