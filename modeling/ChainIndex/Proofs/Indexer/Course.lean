import ChainIndex.Fixture.Basic
import ChainIndex.Proofs.Indexer.Resolve
import ChainIndex.Proofs.Indexer.Retry
import ChainIndex.Proofs.Indexer.Tracking
import ChainIndex.Proofs.Indexer.Written
import ChainIndex.Proofs.Storage.Sequential

/-!
# Courses of an indexer through resets and restarts

* `Turn`: an event, a reset, or a new indexer over the same store. `Session.turns` takes turns one after
  the other; a session goes on through all of them with what its consumer was handed.
* `Turn.Agrees txsOf`: a turn on which the transactions of a block are those of its header.
* `Turn.Plain txsOf`: a turn on which the transactions of a block are those of its header, the consumer
  leaves the store alone, and nobody else changes what the store holds.
* `Contents.confirmed` and `Contents.confirmedAll`: the contents after a block, and after blocks one after
  the other, by a confirmation that meets no faults.
-/

namespace ChainIndex

variable {κ : Type}

/-- What can happen to an indexer and its store. -/
inductive Turn (κ : Type) where
  | event (c : Call κ)
  | reset (store : Database → Database)
  /-- A new indexer takes over the store. -/
  | restart (store : Database → Database)

/-- Others leave what the store holds, and bring about no commit that waits for the disk in vain. Any other
calls may begin or cease to fail. -/
def KeepsContents (store : Database → Database) : Prop :=
  ∀ db : Database, (store db).contents = db.contents ∧
    (db.engine.ReachesDisk → (store db).engine.ReachesDisk)

/-- A consumer that does not write to the store. -/
def Consumer.ReadsOnly (consumer : Consumer κ) : Prop :=
  ∀ block txs k db, (consumer block txs k db).2.2 = db

/-- A source that has the given transactions of a block, if it has any. -/
def BlockSource.Agrees (source : BlockSource) (txsOf : BlockHeader → List Tx) : Prop :=
  ∀ header txs, source header = .ok txs → txs = txsOf header

/-- The sources of a turn have the given transactions of a block. -/
def Turn.Agrees (txsOf : BlockHeader → List Tx) : Turn κ → Prop
  | event c => c.source.Agrees txsOf
  | reset _ | restart _ => True

/-- A turn whose transactions depend on the header only, and whose consumer and other users of the store
do not write to it. -/
def Turn.Plain (txsOf : BlockHeader → List Tx) : Turn κ → Prop
  | event c => c.source.Agrees txsOf ∧ c.consumer.ReadsOnly ∧ KeepsContents c.store
  | reset store | restart store => KeepsContents store

theorem KeepsContents.id : KeepsContents id := fun _ => ⟨rfl, fun disk => disk⟩

theorem KeepsContents.withFaults {faults : Faults} (sync : faults.sync = none) :
    KeepsContents (Database.withFaults faults) := fun _ => ⟨rfl, fun _ _ => sync⟩

/-- Made-up headers are announced one after the other, and nothing fails. -/
def Turn.forwards (txsOf : BlockHeader → List Tx) (slots : List UInt64) : List (Turn Unit) :=
  slots.map fun slot =>
    .event ⟨⟨fun header => .ok (txsOf header), fun _ _ k db => (.ok (), k, db), id⟩,
      .rollForward (Fixture.header slot)⟩

theorem Turn.forwards_plain (txsOf : BlockHeader → List Tx) (slots : List UInt64) :
    ∀ turn ∈ forwards txsOf slots, turn.Plain txsOf := by
  intro turn h
  obtain ⟨slot, -, rfl⟩ := List.mem_map.1 h
  exact ⟨fun header txs h => (Except.ok.inj h).symm, fun _ _ _ _ => rfl, .id⟩

namespace Session

/-- The session after a turn. A new indexer has the same configuration. -/
def turn (t : Session κ) : Turn κ → Session κ
  | .event c => t.step c
  | .reset store =>
    { t with indexer := { t.indexer with database := store t.indexer.database }.reset.2 }
  | .restart store =>
    match Indexer.new t.indexer.config (store t.indexer.database) with
    | .ok indexer => { t with indexer }
    | .error _ => t

/-- Takes turns in order. -/
def turns (t : Session κ) (turns : List (Turn κ)) : Session κ := turns.foldl turn t

/-- What the store holds. -/
def contents (t : Session κ) : Contents := t.indexer.database.contents

theorem confirmed_prefix_turn (t : Session κ) (turn : Turn κ) :
    t.confirmed <+: (t.turn turn).confirmed := by
  cases turn with
  | event c => exact confirmed_prefix_step t c
  | reset store => exact List.prefix_rfl
  | restart store =>
    simp only [Session.turn]
    split <;> exact List.prefix_rfl

theorem confirmed_prefix_turns (t : Session κ) (turns : List (Turn κ)) :
    t.confirmed <+: (t.turns turns).confirmed := by
  induction turns generalizing t with
  | nil => exact List.prefix_rfl
  | cons turn turns ih => exact (confirmed_prefix_turn t turn).trans (ih (t.turn turn))

theorem ready_turn {config : IndexerConfig} {t : Session κ}
    (ready : t.indexer.Ready config) (turn : Turn κ) :
    (t.turn turn).indexer.Ready config := by
  cases turn with
  | event c => exact ready_step ready c
  | reset store => exact (ready.store _).reset
  | restart store =>
    simp only [Session.turn]
    split
    · rename_i indexer hnew
      rw [ready.config_eq] at hnew
      exact .new hnew
    · exact ready

theorem ready_turns {config : IndexerConfig} {t : Session κ}
    (ready : t.indexer.Ready config) (turns : List (Turn κ)) :
    (t.turns turns).indexer.Ready config := by
  induction turns generalizing t with
  | nil => exact ready
  | cons turn turns ih => exact ih (ready_turn ready turn)

theorem turns_append (t : Session κ) (front rest : List (Turn κ)) :
    t.turns (front ++ rest) = (t.turns front).turns rest := List.foldl_append

end Session

/-! ## Confirmations that meet no faults -/

/-- The contents after the block of a header, if its confirmation over them succeeds. -/
def Contents.confirmed (config : IndexerConfig) (txsOf : BlockHeader → List Tx) (c : Contents)
    (header : BlockHeader) : Option Contents :=
  let s : Indexer :=
    { config
      database := { engine := ⟨.memory, c, .never⟩ }
      window := .empty config.confirmationDepth.toNat }
  match s.confirm header (txsOf header) with
  | (.ok _, t) => some t.database.contents
  | (.error _, _) => none

/-- The contents after the blocks of headers, one after the other. -/
def Contents.confirmedAll (config : IndexerConfig) (txsOf : BlockHeader → List Tx) (c : Contents)
    (headers : List BlockHeader) : Option Contents := headers.foldlM (confirmed config txsOf) c

theorem Contents.confirmedAll_append_singleton {config : IndexerConfig}
    {txsOf : BlockHeader → List Tx} {c d e : Contents} {headers : List BlockHeader}
    {header : BlockHeader} (h : c.confirmedAll config txsOf headers = some d)
    (hd : d.confirmed config txsOf header = some e) :
    c.confirmedAll config txsOf (headers ++ [header]) = some e := by
  unfold confirmedAll at h ⊢
  rw [List.foldlM_append, h]
  simp [hd]

/-- A look-up that succeeds does not depend on faults. -/
theorem Database.txOutput_of_contents {db db' : Database} {ref : OutputRef} {output : TxOutput}
    (h : db.txOutput ref = .ok output) (usable : db'.isPoisoned = false)
    (never : db'.engine.faults = .never) (same : db'.contents = db.contents) :
    db'.txOutput ref = .ok output := by
  unfold txOutput view at h ⊢
  split at h
  · cases h
  · rw [if_neg (by simp [usable])]
    obtain ⟨stored, hget, h⟩ := View.bind_eq_ok.1 h
    refine View.bind_eq_ok.2 ⟨stored, ?_, ?_⟩
    · rw [View.get_eq_ok hget, ← show db'.engine.contents = db.engine.contents from same, View.get,
        Engine.get, never]
      rfl
    · split at h <;> exact h

/-- Nor does a confirmation. -/
theorem Indexer.confirm_of_contents {config : IndexerConfig} {s t s' : Indexer}
    {header : BlockHeader} {txs : List Tx} {c : Confirmation} (ready : s.Ready config)
    (h : s.confirm header txs = (.ok c, t)) (ready' : s'.Ready config)
    (usable : s'.database.isPoisoned = false) (never : s'.database.engine.faults = .never)
    (same : s'.database.contents = s.database.contents) :
    ∃ t', s'.confirm header txs = (.ok c, t') ∧ t'.database.contents = t.database.contents := by
  obtain ⟨resolved, database, hresolved, rfl, hexecute, rfl⟩ := confirm_ok h
  obtain ⟨config', db, writer, window, latest⟩ := s'
  obtain rfl : config' = config := ready'.config_eq
  obtain rfl : writer = .empty := ready'.writer_eq
  rw [ready.writer_eq, ready.config_eq] at hexecute
  have hresolved' : resolveInputs db.txOutput txs = .ok resolved :=
    resolveInputs_mono (fun _ _ hl => Database.txOutput_of_contents hl usable never same) hresolved
  -- The same batch is carried out over the same contents.
  generalize hw : ((Confirmation.ofBlock config' header resolved).ops config'.softDelete).foldl
    BatchWriter.push .empty = w at hexecute
  have hdirect := (BatchWriter.execute_ok hexecute).1
  rw [← same] at hdirect
  have hanswer : (w.execute db).1 = .ok () := by
    rw [BatchWriter.execute_answer usable never, hdirect]
    rfl
  have hexecute' : w.execute db = (.ok (), .empty, (w.execute db).2.2) :=
    Prod.ext hanswer (Prod.ext (w.execute_writer db) rfl)
  have hdirect' := (BatchWriter.execute_ok hexecute').1
  rw [hdirect] at hdirect'
  subst hw
  rw [ready.config_eq]
  refine ⟨_, confirm_of_ok hresolved' hexecute', ?_⟩
  exact (Prod.mk.inj (Except.ok.inj hdirect')).2.symm

/-- A confirmation that succeeds, on any medium and in spite of any faults, leaves the contents of one that
meets none. -/
theorem Indexer.confirm_contents {config : IndexerConfig} {txsOf : BlockHeader → List Tx}
    {s t : Indexer} {header : BlockHeader} {c : Confirmation} (ready : s.Ready config)
    (h : s.confirm header (txsOf header) = (.ok c, t)) :
    s.database.contents.confirmed config txsOf header = some t.database.contents := by
  have ready' : Ready config
      { config
        database := { engine := ⟨.memory, s.database.contents, .never⟩ }
        window := .empty config.confirmationDepth.toNat } := ⟨rfl, ready.faultless, rfl, rfl⟩
  obtain ⟨t', ht', same⟩ := confirm_of_contents ready h ready' rfl rfl rfl
  unfold Contents.confirmed
  simp only [ht', same]

/-- Of the database a confirmation changes the contents only. -/
theorem Indexer.confirm_database {s t : Indexer} {header : BlockHeader} {txs : List Tx}
    {c : Confirmation} (h : s.confirm header txs = (.ok c, t)) :
    t.database =
      { s.database with engine := { s.database.engine with contents := t.database.contents } } := by
  obtain ⟨resolved, database, -, -, hexecute, rfl⟩ := confirm_ok h
  exact (BatchWriter.execute_ok hexecute).2

/-- Besides outputs it changes what its parts say. -/
theorem Indexer.confirm_written {config : IndexerConfig} {s t : Indexer} {header : BlockHeader}
    {txs : List Tx} {c : Confirmation} (ready : s.Ready config)
    (h : s.confirm header txs = (.ok c, t)) :
    c.Written s.database.contents t.database.contents := by
  obtain ⟨resolved, database, -, rfl, hexecute, rfl⟩ := confirm_ok h
  have hdirect := (BatchWriter.execute_ok hexecute).1
  rw [ready.writer_eq, BatchWriter.ops_of_pushed] at hdirect
  exact Confirmation.ops_written hdirect

theorem Indexer.confirm_block {s t : Indexer} {header : BlockHeader} {txs : List Tx}
    {c : Confirmation} (h : s.confirm header txs = (.ok c, t)) : c.block.header = header := by
  obtain ⟨resolved, database, -, rfl, -, -⟩ := confirm_ok h
  rfl

theorem Indexer.rollBackward_database (s : Indexer) (point : Point) :
    (s.rollBackward point).2.database = s.database := by
  have hr := s.rollBackward_rolled point
  generalize s.rollBackward point = r at hr ⊢
  cases hr <;> rfl

/-- A new indexer over a store that nobody has told anything. -/
theorem Indexer.new_ok {config : IndexerConfig} {db : Database} {s : Indexer}
    (h : Indexer.new config db = .ok s) :
    s = { config, database := db, window := .empty config.confirmationDepth.toNat } := by
  unfold Indexer.new at h
  split at h <;> cases h
  rfl

end ChainIndex
