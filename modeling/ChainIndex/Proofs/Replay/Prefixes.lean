import Mathlib.Data.List.DropRight
import ChainIndex.Fixture.Files
import ChainIndex.Proofs.Replay.Announced
import ChainIndex.Proofs.Replay.Resume
import ChainIndex.Replay.Basic

/-!
# Replays of longer and longer prefixes

* `Replay.load_eq`: the files of a chain are loaded, and the store that comes of it hands out the transactions
  of every block.
* `Replay.reset_replayed`, `Replay.headersAfter_last`: a reset of an indexer over processed blocks finds the
  last one, and the headers behind it are those of the blocks that are still ahead.
* `Replay.index_eq`: so a replay goes on where the store ends, and leaves all blocks processed but the last
  ones.
* `Replay.runAll_eq`: hence replays of longer and longer prefixes of a list of files leave what one replay of
  the longest leaves.
-/

namespace ChainIndex

/-! ## Files of blocks -/

/-- A file holds a block. -/
def BlockFile.Holds (file : BlockFile) (block : RawBlock) : Prop :=
  ∃ raw, file.content = .ok raw ∧ RawBlock.decode raw = .ok block

namespace RawBlock

/-- A block with its transactions as the index takes them. -/
def toSource (block : RawBlock) : SourceBlock := ⟨block.header, block.toTxs⟩

/-- Blocks with increasing slots and different hashes, none of them zero. The positions of their transactions
can be counted, and the transactions be stored. -/
structure Chain (blocks : List RawBlock) : Prop where
  rising : blocks.Pairwise fun b later => b.header.slot < later.header.slot
  distinct : (blocks.map (·.header.hash)).Nodup
  nonzero : ∀ b ∈ blocks, b.header.hash.isZero = false
  counted : ∀ b ∈ blocks, b.txs.length ≤ UInt32.size
  storable : ∀ b ∈ blocks, ∀ tx ∈ b.toTxs, tx.Storable

theorem orderly_toSource {b : RawBlock} (counted : b.txs.length ≤ UInt32.size)
    (storable : ∀ tx ∈ b.toTxs, tx.Storable) : b.toSource.Orderly where
  slot tx htx := (ofBlock_of_mem_toTxs htx).slot
  positions := by
    have slots (tx : Tx) (htx : tx ∈ b.toTxs) : tx.blockSlot = b.header.slot := (ofBlock_of_mem_toTxs htx).slot
    refine (ascending_toTxs_iff.2 counted).imp_of_mem fun {tx later} htx hlater lt => ?_
    obtain slot | ⟨-, position⟩ := Tx.key_lt_iff.1 lt
    · exact absurd ((slots tx htx).trans (slots later hlater).symm) (UInt64.ne_of_lt slot)
    · exact position
  storable := storable

namespace Chain

variable {blocks : List RawBlock}

theorem take (h : Chain blocks) (n : Nat) : Chain (blocks.take n) where
  rising := h.rising.sublist (List.take_sublist n blocks)
  distinct := h.distinct.sublist ((List.take_sublist n blocks).map _)
  nonzero b hb := h.nonzero b (List.mem_of_mem_take hb)
  counted b hb := h.counted b (List.mem_of_mem_take hb)
  storable b hb := h.storable b (List.mem_of_mem_take hb)

theorem replayable (h : Chain blocks) : Replayable (blocks.map toSource) where
  rising := List.pairwise_map.2 h.rising
  orderly := List.forall_mem_map.2 fun b hb => orderly_toSource (h.counted b hb) (h.storable b hb)

end Chain

end RawBlock

namespace Replay

variable {files : List BlockFile} {blocks : List RawBlock}

/-- The octets of files of blocks, with the headers that are read off them. -/
theorem exists_contents (holds : List.Forall₂ BlockFile.Holds files blocks) :
    ∃ contents : List (Bytes × BlockHeader), (files.map (·.content) = contents.map fun b => .ok b.1) ∧
      blocks.map (·.header) = contents.map (·.2) ∧ (∀ b ∈ contents, RawBlock.decodeHeader b.1 = .ok b.2) ∧
      ∀ b ∈ blocks, ∃ raw, (raw, b.header) ∈ contents ∧ RawBlock.decode raw = .ok b := by
  induction holds with
  | nil => exact ⟨[], rfl, rfl, nofun, nofun⟩
  | @cons file b files blocks first _ ih =>
    obtain ⟨raw, content, decodes⟩ := first
    obtain ⟨contents, files_eq, headers_eq, headers, found⟩ := ih
    refine ⟨(raw, b.header) :: contents, ?_, ?_, ?_, ?_⟩
    · rw [List.map_cons, content, files_eq, List.map_cons]
    · rw [List.map_cons, headers_eq, List.map_cons]
    · exact List.forall_mem_cons.2 ⟨RawBlock.decodeHeader_eq_ok.2 ⟨b, decodes, rfl⟩, headers⟩
    · refine List.forall_mem_cons.2 ⟨⟨raw, List.mem_cons_self, decodes⟩, fun b hb => ?_⟩
      obtain ⟨raw, mem, decodes⟩ := found b hb
      exact ⟨raw, List.mem_cons_of_mem _ mem, decodes⟩

/-- Files of blocks are loaded, and the store hands out the transactions of every block. -/
theorem load_eq (holds : List.Forall₂ BlockFile.Holds files blocks)
    (distinct : (blocks.map (·.header.hash)).Nodup) :
    ∃ s, load files .empty = .ok (s, blocks.map (·.header)) ∧
      s.source.Offers (blocks.map RawBlock.toSource) := by
  obtain ⟨contents, files_eq, headers_eq, headers, found⟩ := exists_contents holds
  have distinct : (contents.map (·.2.hash)).Nodup := by
    have hashes := congrArg (List.map (·.hash)) headers_eq
    rw [List.map_map, List.map_map] at hashes
    exact hashes ▸ distinct
  refine ⟨_, load_eq_ok.2 ⟨contents, files_eq, headers, rfl, headers_eq⟩, List.forall_mem_map.2 fun b hb => ?_⟩
  obtain ⟨raw, mem, decodes⟩ := found b hb
  obtain ⟨front, raw', block, rest, split, decodes', same, -, txs⟩ :=
    BlockStore.txs_insertAll (s := .empty) headers (List.mem_map_of_mem mem)
  -- no other block has this hash
  have mem' : (raw', block.header) ∈ contents := by simp [split]
  obtain ⟨rfl, -⟩ := Prod.mk.inj (List.inj_on_of_nodup_map distinct mem' mem same)
  obtain rfl := Except.ok.inj (decodes.symm.trans decodes')
  exact BlockStore.source_of_txs txs

variable {config : IndexerConfig} {db : Database} {c : Contents} {done rest : List SourceBlock}

/-! ## Where a replay goes on -/

/-- A reset of an indexer over processed blocks finds the last one. -/
theorem reset_replayed (replayed : c.Replayed config done) (sound : db.Sound)
    (noStart : config.startingPoint = none) {s : Indexer} (ready : s.Ready config)
    (store : s.database = db.withContents c) :
    ∃ t, s.reset = (.ok ((done.getLast?.map (·.header.point)).getD .origin), t) ∧
      Midway config db done [] t := by
  have found : s.database.latestPoint? = .ok (done.getLast?.map (·.header.point)) := by
    rw [store]
    exact replayed.latestPoint?_eq (sound.withContents c)
  refine ⟨s.reset.2, ?_, ready.reset, ?_, ?_⟩ <;>
    simp only [Indexer.reset, found, ready.config_eq, noStart]
  · rfl
  · exact ⟨c, store, replayed⟩
  · rfl

/-- The headers behind the last processed block are those of the blocks that are still ahead. -/
theorem headersAfter_last (rising : (done ++ rest).Pairwise fun b later => b.header.slot < later.header.slot)
    (nonzero : ∀ b ∈ done, b.header.hash.isZero = false) :
    headersAfter ((done ++ rest).map (·.header)) ((done.getLast?.map (·.header.point)).getD .origin) =
      rest.map (·.header) := by
  rcases List.eq_nil_or_concat done with rfl | ⟨front, last, rfl⟩
  · rfl
  · have sorted : ((front.concat last ++ rest).map (·.header)).Pairwise fun a b => a.slot ≤ b.slot :=
      List.pairwise_map.2 (rising.imp UInt64.le_of_lt)
    have ahead : (rest.map (·.header)).filter (last.header.slot < ·.slot) = rest.map (·.header) := by
      refine List.filter_eq_self.2 (List.forall_mem_map.2 fun b hb => ?_)
      exact decide_eq_true ((List.pairwise_append.1 rising).2.2 last (by simp) b hb)
    have split : (front.concat last ++ rest).map (·.header) =
        front.map (·.header) ++ last.header :: rest.map (·.header) := by simp
    have found : ((front.concat last).getLast?.map (·.header.point)).getD .origin = last.header.point := by
      simp
    rw [split] at sorted ⊢
    rw [found, headersAfter_eq_filter (nonzero last (by simp)) sorted, ahead]

/-- A replay over processed blocks goes on behind them, and leaves all blocks processed but the last ones. -/
theorem index_eq (faultless : config.fault? = none) (noStart : config.startingPoint = none)
    (sound : db.Sound) (holds : List.Forall₂ BlockFile.Holds files blocks) (chain : RawBlock.Chain blocks)
    {count : Nat} (behind : count ≤ blocks.length - config.confirmationDepth.toNat)
    (replayed : c.Replayed config ((blocks.map RawBlock.toSource).take count)) :
    ∃ c', index config files (db.withContents c) = (.ok (), db.withContents c') ∧
      c'.Replayed config ((blocks.map RawBlock.toSource).rdrop config.confirmationDepth.toNat) := by
  obtain ⟨store, loaded, offers⟩ := load_eq holds chain.distinct
  have replayable := chain.replayable
  have headers : blocks.map (·.header) = (blocks.map RawBlock.toSource).map (·.header) := by
    rw [List.map_map]
    rfl
  have nonzero : ∀ b ∈ blocks.map RawBlock.toSource, b.header.hash.isZero = false :=
    List.forall_mem_map.2 chain.nonzero
  have total : (blocks.map RawBlock.toSource).length = blocks.length := List.length_map _
  generalize blocks.map RawBlock.toSource = all at *
  obtain ⟨done, rest, rfl, hdone⟩ : ∃ done rest, all = done ++ rest ∧ all.take count = done :=
    ⟨all.take count, all.drop count, (List.take_append_drop count all).symm, rfl⟩
  rw [hdone] at replayed
  have fresh : Indexer.new config (db.withContents c) = .ok
      { config, database := db.withContents c, window := .empty config.confirmationDepth.toNat } := by
    unfold Indexer.new
    rw [faultless]
  obtain ⟨s, reset, midway⟩ := reset_replayed replayed sound noStart (.new fresh) rfl
  obtain ⟨done', waiting, c', split, length, follows, replayed'⟩ := midway.follow_eq sound replayable offers
  refine ⟨c', ?_, ?_⟩
  · unfold index
    simp only [loaded, fresh, reset]
    rw [headers, headersAfter_last replayable.rising fun b hb => nonzero b (List.mem_append_left _ hb)]
    exact follows
  · have processed : (done' ++ waiting).length - config.confirmationDepth.toNat = done'.length := by
      have before : done.length = min count blocks.length := by
        rw [← hdone, List.length_take, total]
      have after := congrArg List.length split
      rw [List.length_append] at total after ⊢
      rw [List.length_append] at after
      omega
    rwa [← split, List.rdrop, processed, List.take_left]

/-! ## Calls one after the other -/

variable {m : Type → Type} [Monad m]

/-- What a replay is called with. -/
structure Request (m : Type → Type) where
  fs : FileSystem m
  settings : Settings
  pattern : String

/-- Replays one after the other over one store, and the outcome of each. -/
def runAll : List (Request m) → Database → m (List (Except ReplayError Unit) × Database)
  | [], db => return ([], db)
  | request :: requests, db => do
    let (answer, db) ← run request.fs request.settings request.pattern db
    let (answers, db) ← runAll requests db
    return (answer :: answers, db)

/-- The settings of a request give a configuration, and some files, in the order of their paths, are those that
match its pattern. -/
structure Request.Finds (config : IndexerConfig) (files : List BlockFile) (request : Request m) : Prop where
  config : IndexerConfig.load request.settings = .ok config
  files : ∃ glob paths, Glob.parse? request.pattern = some glob ∧
    (glob.expand request.fs).run = pure (.ok paths) ∧ readFiles request.fs paths = pure files

theorem Request.Finds.run_eq [LawfulMonad m] {request : Request m} (h : request.Finds config files)
    (db : Database) :
    run request.fs request.settings request.pattern db = pure (index config files db) := by
  obtain ⟨glob, paths, pattern, expands, reads⟩ := h.files
  simp only [run, h.config, pattern, expands, reads, pure_bind]

/-- Settings that are accepted give a configuration without fault. -/
theorem Request.Finds.faultless {request : Request m} (h : request.Finds config files) :
    config.fault? = none := by
  have loads := h.config
  unfold IndexerConfig.load at loads
  simp only at loads
  split at loads
  · cases loads
  · split at loads
    · cases loads
    · rename_i faultless
      cases loads
      exact faultless

theorem rdrop_map_take (n depth : Nat) : ((blocks.take n).map RawBlock.toSource).rdrop depth =
    (blocks.map RawBlock.toSource).take ((blocks.take n).length - depth) := by
  have short : (blocks.take n).length - depth ≤ n := by
    rw [List.length_take]
    omega
  rw [List.rdrop, List.length_map, List.map_take, List.take_take, Nat.min_eq_left short]

/-- Replays that go on over processed blocks, each of a prefix at least as long as the one before. -/
theorem runAll_replayed [LawfulMonad m] (noStart : config.startingPoint = none) (sound : db.Sound)
    (holds : List.Forall₂ BlockFile.Holds files blocks) (chain : RawBlock.Chain blocks)
    {requests : List (Request m)} {lengths : List Nat}
    (finds : List.Forall₂ (fun request n => request.Finds config (files.take n)) requests lengths)
    (longer : lengths.Pairwise (· ≤ ·)) {count : Nat}
    (behind : ∀ n ∈ lengths, count ≤ (blocks.take n).length - config.confirmationDepth.toNat)
    (replayed : c.Replayed config ((blocks.map RawBlock.toSource).take count)) :
    ∃ c', runAll requests (db.withContents c) =
        pure (requests.map fun _ => .ok (), db.withContents c') ∧
      c'.Replayed config ((blocks.map RawBlock.toSource).take (lengths.getLast?.elim count fun n =>
        (blocks.take n).length - config.confirmationDepth.toNat)) := by
  induction finds generalizing c count with
  | nil => exact ⟨c, rfl, replayed⟩
  | @cons request n requests lengths first _ ih =>
    obtain ⟨here, later⟩ := List.forall_mem_cons.1 behind
    obtain ⟨shorter, longer⟩ := List.pairwise_cons.1 longer
    have shown : ((blocks.take n).map RawBlock.toSource).take count =
        (blocks.map RawBlock.toSource).take count := by
      rw [List.length_take] at here
      rw [List.map_take, List.take_take, Nat.min_eq_left (by omega)]
    obtain ⟨c₁, index, replayed₁⟩ := index_eq first.faultless noStart sound
      (List.forall₂_take n holds) (chain.take n) here (shown ▸ replayed)
    rw [rdrop_map_take] at replayed₁
    have behind₁ : ∀ n' ∈ lengths, (blocks.take n).length - config.confirmationDepth.toNat ≤
        (blocks.take n').length - config.confirmationDepth.toNat := by
      intro n' hn'
      have further := shorter n' hn'
      simp only [List.length_take]
      omega
    obtain ⟨c₂, runs, replayed₂⟩ := ih longer behind₁ replayed₁
    refine ⟨c₂, ?_, ?_⟩
    · simp only [runAll, first.run_eq, index, runs, pure_bind, List.map_cons]
    · rw [List.getLast?_cons]
      cases last : lengths.getLast? <;> rw [last] at replayed₂ <;> exact replayed₂

/-- Take a list of files that hold a chain of blocks, settings without a starting point, and an empty store that
does not fail. Replays one after the other, each of a prefix of the files at least as long as the one before,
all succeed, and leave the store that a single replay of the longest prefix leaves: all its blocks but the last
ones, as many as the confirmation depth, are recorded in order, the latest point is that of the last of these,
their followed transactions are processed and no transaction is unprocessed. -/
theorem runAll_eq [LawfulMonad m] (noStart : config.startingPoint = none) (sound : db.Sound)
    (empty : db.contents = .empty) (holds : List.Forall₂ BlockFile.Holds files blocks)
    (chain : RawBlock.Chain blocks) {requests : List (Request m)} {lengths : List Nat}
    (finds : List.Forall₂ (fun request n => request.Finds config (files.take n)) requests lengths)
    (longer : lengths.Pairwise (· ≤ ·)) :
    let longest := lengths.getLast?.getD 0
    ∃ c, runAll requests db = pure (requests.map fun _ => .ok (), db.withContents c) ∧
      (∀ request : Request m, request.Finds config (files.take longest) →
        run request.fs request.settings request.pattern db = pure (.ok (), db.withContents c)) ∧
      c.Replayed config
        (((blocks.take longest).map RawBlock.toSource).rdrop config.confirmationDepth.toNat) := by
  intro longest
  have store : db.withContents .empty = db := by
    rw [← empty]
    rfl
  have behind : ∀ n ∈ lengths, 0 ≤ (blocks.take n).length - config.confirmationDepth.toNat :=
    fun _ _ => Nat.zero_le _
  obtain ⟨c, runs, replayed⟩ :=
    runAll_replayed noStart sound holds chain finds longer behind (.empty config)
  have count : (lengths.getLast?.elim 0 fun n =>
      (blocks.take n).length - config.confirmationDepth.toNat) =
        (blocks.take longest).length - config.confirmationDepth.toNat := by
    cases last : lengths.getLast? <;> simp [longest, last]
  rw [store] at runs
  rw [count, ← rdrop_map_take] at replayed
  refine ⟨c, runs, fun request found => ?_, replayed⟩
  obtain ⟨c', index, replayed'⟩ := index_eq found.faultless noStart sound
    (List.forall₂_take longest holds) (chain.take longest) (Nat.zero_le _) (.empty config)
  rw [found.run_eq, ← store, index, replayed.unique replayed']
  rfl

/-- A block of the second era with one transaction, which pays to an address. -/
def payingBlock (slot : UInt8) : Bytes :=
  [0x82, 2, 0x84, 0x82, 0x8f, slot, slot, 0xf6, 0x40, 0x40, 0x82, 0x40, 0x40, 0x82, 0x40, 0x40, 0, 0x58, 32] ++
    List.replicate 32 4 ++ [0x40, 0, 0, 0x40, 0, 0, 0x40,
    0x81, 0xa3, 0, 0x80, 1, 0x81, 0x82, 0x58, 29, 0x61] ++ List.replicate 28 7 ++
    [5, 2, 0, 0x81, 0xa0, 0xa0]

/-- What that block is read as. -/
def payingRawBlock (slot : UInt8) : RawBlock :=
  (RawBlock.decode (payingBlock slot)).toOption.getD ⟨⟨0, Fixture.blockHash 0, 0, 0⟩, []⟩

/-- A replay of the blocks at some slots, each in a file, with a depth of one. -/
def payingRequest (slots : List UInt8) : Request Id :=
  let disk : Fixture.Disk := { files := slots.map fun slot => ([toString slot], payingBlock slot) }
  { fs := { kind? := disk.kind?, list := fun path => .ok (disk.list path), read := disk.read }
    settings := ⟨[("indexer", .table [("confirmation-depth", .int 1)])]⟩
    pattern := "?" }

theorem payingRequest_finds {slots : List UInt8} (h : slots = [1] ∨ slots = [1, 2]) :
    (payingRequest slots).Finds { confirmationDepth := 1 }
      (slots.map fun slot => ⟨toString slot, .ok (payingBlock slot)⟩) where
  config := ok_of_toOption (by obtain rfl | rfl := h <;> decide +kernel)
  files := by
    have parsed : Glob.parse? "?" = some ⟨".", [.wild [.anyChar]], false⟩ := by decide +kernel
    refine ⟨_, slots.map toString, parsed, ?_, ?_⟩
    · have found : (Glob.below (payingRequest slots).fs false 4098 [.wild [.anyChar]] ".").run =
          .ok (slots.map toString) := ok_of_toOption (by obtain rfl | rfl := h <;> decide +kernel)
      have sorted : Path.sort (slots.map toString) = slots.map toString :=
        List.mergeSort_of_pairwise (by obtain rfl | rfl := h <;> decide +kernel)
      simp only [Glob.expand, Glob.maxDepth, List.length_singleton, ExceptT.run_bind, found]
      exact congrArg Except.ok sorted
    · have read : ∀ slot ∈ slots, (payingRequest slots).fs.read (toString slot) =
          .ok (payingBlock slot) := by
        intro slot hslot
        refine ok_of_toOption ?_
        revert slot
        obtain rfl | rfl := h <;> decide +kernel
      have reads : (slots.map toString).mapM (fun path => (do
          return ⟨path, ← (payingRequest slots).fs.read path⟩ : Id BlockFile)) =
            pure (slots.map fun slot => ⟨toString slot, .ok (payingBlock slot)⟩) := by
        obtain rfl | rfl := h <;> simp only [List.map_cons, List.map_nil, List.mapM_cons, List.mapM_nil]
        · rw [read 1 (by decide)]
          rfl
        · rw [read 1 (by decide), read 2 (by decide)]
          rfl
      exact reads

theorem payingBlock_holds : ∀ slot ∈ [1, 2],
    BlockFile.Holds ⟨toString slot, .ok (payingBlock slot)⟩ (payingRawBlock slot) := by
  intro slot hslot
  have decodes : (RawBlock.decode (payingBlock slot)).toOption.isSome = true := by
    revert slot
    decide +kernel
  obtain ⟨b, hb⟩ := Option.isSome_iff_exists.1 decodes
  refine ⟨payingBlock slot, rfl, ok_of_toOption ?_⟩
  rw [payingRawBlock, hb]
  rfl

theorem chain_payingBlocks : RawBlock.Chain ([1, 2].map payingRawBlock) where
  rising := by decide +kernel
  distinct := by decide +kernel
  nonzero := by decide +kernel
  counted := by decide +kernel
  storable b hb tx htx := by
    have plain : ∀ b ∈ [1, 2].map payingRawBlock, ∀ tx ∈ b.toTxs, tx.metadata = none ∧ tx.inputs = [] ∧
        tx.outputs.length < UInt64.size ∧ ∀ o ∈ tx.outputs,
          (Utf8.encode o.address).length < UInt64.size ∧ o.tokens = [] ∧ o.datum = none := by decide +kernel
    obtain ⟨metadata, inputs, fewOutputs, outputs⟩ := plain b hb tx htx
    refine ⟨by simp [metadata], by simp [inputs, UInt64.size], by simp [inputs], fewOutputs, fun o ho => ?_⟩
    obtain ⟨address, tokens, datum⟩ := outputs o ho
    exact ⟨address, by simp [tokens, UInt64.size], by simp [tokens], by simp [datum]⟩

/-- The first block is replayed, then both are, and then both again: each replay succeeds, and the first block
with its transaction is processed, as it is after one replay of both. -/
theorem runAll_payingBlocks :
    let db : Database := .new .memory
    let both := payingRequest [1, 2]
    ∃ db', runAll [payingRequest [1], both, both] db = pure ([.ok (), .ok (), .ok ()], db') ∧
      run both.fs both.settings both.pattern db = pure (.ok (), db') ∧
      db'.latestPoint? = .ok (some (payingRawBlock 1).header.point) ∧
      (db'.processedTxs 10).toOption.map (·.map (·.blockSlot)) = some [1] ∧
      db'.unprocessedTxs 10 = .ok [] := by
  intro db both
  have holds : List.Forall₂ BlockFile.Holds
      ([1, 2].map fun slot : UInt8 => ⟨toString slot, .ok (payingBlock slot)⟩)
      ([1, 2].map payingRawBlock) :=
    .cons (payingBlock_holds 1 (by decide)) (.cons (payingBlock_holds 2 (by decide)) .nil)
  have one : (payingRequest [1]).Finds _ _ := payingRequest_finds (.inl rfl)
  have two : both.Finds _ _ := payingRequest_finds (.inr rfl)
  have finds : List.Forall₂ (fun request n => Request.Finds { confirmationDepth := 1 }
      (([1, 2].map fun slot : UInt8 => ⟨toString slot, .ok (payingBlock slot)⟩).take n) request)
      [payingRequest [1], both, both] [1, 2, 2] := .cons one (.cons two (.cons two .nil))
  obtain ⟨c, runs, once, replayed⟩ :=
    runAll_eq rfl (Database.Sound.new .memory) rfl holds chain_payingBlocks finds (by decide)
  have first : Contents.Replayed { confirmationDepth := 1 } [(payingRawBlock 1).toSource]
    (db.withContents c).contents := replayed
  have sound : (db.withContents c).Sound := (Database.Sound.new .memory).withContents c
  refine ⟨_, runs, once both two, first.latestPoint?_eq sound, ?_, first.unprocessedTxs.firstTxs sound 10⟩
  rw [Database.processedTxs, first.processedTxs.firstTxs sound]
  decide +kernel

end Replay

end ChainIndex
