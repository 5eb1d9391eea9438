import Mathlib.Data.List.Induction
import ChainIndex.Proofs.Storage.Key
import ChainIndex.Replay.Basic

/-!
# Raw blocks that are read

* `RawBlock.decodeHeader_eq_ok`, `RawBlock.decodeHeader_eq_error`: the header that is read alone is that of the
  block, and the errors are the same.
* `Tx.OfBlock`: a transaction as it is read off a block. The keys of those of one block ascend, as long as they can
  be counted (`RawBlock.ascending_toTxs_iff`).
* `txsFrom`: the transactions of a header, from any source of raw blocks. They are those of a block with the hash
  of the header (`txsFrom_eq_ok`).
* `BlockStore.txs_insertAll`: of blocks that were put under the hashes of their headers, the last one with a hash
  is found. `Replay.load_eq_ok` says so of the blocks of files.
* `decoded_blocks_fetched`: so the two readings of a raw block agree, and no header of a loaded block is refused.
-/

namespace ChainIndex

theorem ok_of_toOption {ε α : Type} {x : Except ε α} {a : α} (h : x.toOption = some a) : x = .ok a := by
  cases x <;> cases h
  rfl

/-! ## Headers and blocks -/

namespace RawBlock

variable {raw : Bytes}

theorem decodeHeader_eq_ok {header : BlockHeader} :
    decodeHeader raw = .ok header ↔ ∃ block, decode raw = .ok block ∧ block.header = header := by
  rw [decodeHeader]
  cases decode raw with
  | error e => exact ⟨nofun, nofun⟩
  | ok block =>
    constructor
    · rintro ⟨⟩
      exact ⟨block, rfl, rfl⟩
    · rintro ⟨_, ⟨⟩, rfl⟩
      rfl

theorem decodeHeader_eq_error {e : Error} : decodeHeader raw = .error e ↔ decode raw = .error e := by
  rw [decodeHeader]
  cases decode raw with
  | error e' => exact ⟨fun h => congrArg _ (Except.error.inj h), fun h => congrArg _ (Except.error.inj h)⟩
  | ok block => exact ⟨nofun, nofun⟩

end RawBlock

/-! ## The transactions of a block -/

/-- A transaction as it is read off the block of a header; what it creates is unused. -/
structure Tx.OfBlock (header : BlockHeader) (tx : Tx) : Prop where
  slot : tx.blockSlot = header.slot
  hash : tx.blockHash = header.hash
  era : tx.eraId = header.eraId
  outputs : ∀ o ∈ tx.outputs, o.slot = header.slot ∧ o.isUsed = false

namespace RawBlock

variable {block : RawBlock}

theorem ofBlock_of_mem_toTxs {tx : Tx} (h : tx ∈ block.toTxs) : tx.OfBlock block.header := by
  obtain ⟨e, -, rfl⟩ := List.mem_map.1 h
  refine ⟨rfl, rfl, rfl, fun o ho => ?_⟩
  obtain ⟨created, -, rfl⟩ := List.mem_map.1 ho
  exact ⟨rfl, rfl⟩

theorem getElem_toTxs {i : Nat} (h : i < block.toTxs.length) :
    block.toTxs[i].blockSlot = block.header.slot ∧ block.toTxs[i].indexInBlock = UInt32.ofNat i := by
  simp [toTxs, RawTx.toTx]

/-- The positions are counted from 0. -/
theorem positions_toTxs (block : RawBlock) :
    block.toTxs.map (·.indexInBlock) = (List.range block.txs.length).map UInt32.ofNat := by
  refine List.ext_getElem (by simp [toTxs]) fun i hi _ => ?_
  rw [List.getElem_map, (getElem_toTxs (by simpa using hi)).2, List.getElem_map, List.getElem_range]

/-- The keys of transactions ascend where their positions do. -/
theorem keys_lt_iff {i j : Nat} (hi : i < block.toTxs.length) (hj : j < block.toTxs.length) :
    block.toTxs[i].key < block.toTxs[j].key ↔ i % UInt32.size < j % UInt32.size := by
  obtain ⟨slot, position⟩ := getElem_toTxs hi
  obtain ⟨slot', position'⟩ := getElem_toTxs hj
  rw [Tx.key_lt_iff, slot, slot', position, position', UInt32.lt_iff_toNat_lt, UInt32.toNat_ofNat',
    UInt32.toNat_ofNat']
  simp

/-- The keys ascend as long as the positions can be counted. -/
theorem ascending_toTxs_iff :
    (block.toTxs.Pairwise fun tx later => tx.key < later.key) ↔ block.txs.length ≤ UInt32.size := by
  have length : block.toTxs.length = block.txs.length := by simp [toTxs]
  rw [List.pairwise_iff_getElem]
  constructor
  · intro ascending
    by_contra more
    -- the transaction behind the last position that can be counted has that of the first one
    have lt := (keys_lt_iff _ _).1 (ascending 0 UInt32.size (by omega) (by omega) (by decide))
    exact absurd lt (by decide)
  · intro counted i j hi hj lt
    rw [keys_lt_iff, Nat.mod_eq_of_lt (by omega), Nat.mod_eq_of_lt (by omega)]
    exact lt

end RawBlock

/-! ## The transactions of a header -/

/-- The transactions of a header, from any source of raw blocks; `fail` makes an error of that source. -/
def txsFrom {ε : Type} (fail : BlockStore.Error → ε) (fetch : Point → Except ε Bytes) (header : BlockHeader) :
    Except ε (List Tx) := do
  let block ← (RawBlock.decode (← fetch header.point)).mapError fun e => fail (.unreadable e)
  if block.header.hash ≠ header.hash then
    throw (fail (.otherHash header.slot block.header.hash header.hash))
  return block.toTxs

theorem txsFrom_eq_ok {ε : Type} {fail : BlockStore.Error → ε} {fetch : Point → Except ε Bytes}
    {header : BlockHeader} {txs : List Tx} :
    txsFrom fail fetch header = .ok txs ↔ ∃ raw block, fetch header.point = .ok raw ∧
      RawBlock.decode raw = .ok block ∧ block.header.hash = header.hash ∧ txs = block.toTxs := by
  simp only [txsFrom, bind, Except.bind]
  cases fetched : fetch header.point with
  | error e => simp
  | ok raw =>
    cases decodes : RawBlock.decode raw with
    | error e => simp [Except.mapError, decodes]
    | ok block =>
      by_cases same : block.header.hash = header.hash
      · simp [Except.mapError, decodes, same, pure, Except.pure, eq_comm]
      · simp [Except.mapError, decodes, same, throw, throwThe, MonadExceptOf.throw]

namespace BlockStore

/-- A store is such a source. -/
theorem txs_eq_txsFrom (s : BlockStore) (header : BlockHeader) : s.txs header = txsFrom id s.fetch header := by
  simp only [txs, txsFrom, bind, Except.bind]
  cases s.fetch header.point with
  | error e => rfl
  | ok raw => cases decodes : RawBlock.decode raw <;> (simp only [decodes, Except.mapError]; rfl)

theorem fetch_eq_ok {s : BlockStore} {point : Point} {raw : Bytes} :
    s.fetch point = .ok raw ↔ s.blocks.lookup point.hash = some raw := by
  unfold fetch
  split <;> simp [*]

theorem source_of_txs {s : BlockStore} {header : BlockHeader} {txs : List Tx} (h : s.txs header = .ok txs) :
    s.source header = .ok txs := by
  rw [source, h]

theorem lookup_insert (s : BlockStore) (hash : BlockHash) (raw : Bytes) (hash' : BlockHash) :
    (s.insert hash raw).blocks.lookup hash' = if hash' = hash then some raw else s.blocks.lookup hash' := by
  by_cases same : hash' = hash
  · rw [if_pos same, same, insert, List.lookup_cons_self]
  · rw [if_neg same, insert, List.lookup_cons, beq_false_of_ne same]
    induction s.blocks with
    | nil => rfl
    | cons entry rest ih =>
      obtain ⟨other, stored⟩ := entry
      simp only [List.filter_cons, List.lookup_cons] at ih ⊢
      by_cases replaced : other = hash
      · simpa [replaced, beq_false_of_ne same] using ih
      · rw [if_pos (by simpa using replaced), List.lookup_cons, ih]

/-- Puts raw blocks under the hashes of their headers, one after the other. -/
def insertAll (s : BlockStore) (blocks : List (Bytes × BlockHeader)) : BlockStore :=
  blocks.foldl (fun s b => s.insert b.2.hash b.1) s

variable {s : BlockStore} {blocks : List (Bytes × BlockHeader)}

/-- The last block with a hash is found. -/
theorem lookup_insertAll {hash : BlockHash} (inserted : hash ∈ blocks.map (·.2.hash)) :
    ∃ front b rest, blocks = front ++ b :: rest ∧ b.2.hash = hash ∧ (∀ later ∈ rest, later.2.hash ≠ hash) ∧
      (s.insertAll blocks).blocks.lookup hash = some b.1 := by
  induction blocks using List.reverseRecOn with
  | nil => exact absurd inserted List.not_mem_nil
  | append_singleton blocks b ih =>
    have last : s.insertAll (blocks ++ [b]) = (s.insertAll blocks).insert b.2.hash b.1 := by
      rw [insertAll, List.foldl_append]
      rfl
    rw [last, lookup_insert]
    by_cases same : hash = b.2.hash
    · exact ⟨blocks, b, [], rfl, same.symm, nofun, if_pos same⟩
    · rw [if_neg same]
      rw [List.map_append, List.mem_append] at inserted
      obtain ⟨front, a, rest, rfl, hash_eq, others, found⟩ :=
        ih (inserted.resolve_right fun h => same (List.mem_singleton.1 h))
      refine ⟨front, a, rest ++ [b], by simp, hash_eq, ?_, found⟩
      exact List.forall_mem_append.2 ⟨others, List.forall_mem_singleton.2 (Ne.symm same)⟩

/-- Where the headers are those that are read off the blocks, every header with the hash of one of them has
transactions, which are those of the last such block. -/
theorem txs_insertAll (decodes : ∀ b ∈ blocks, RawBlock.decodeHeader b.1 = .ok b.2) {header : BlockHeader}
    (inserted : header.hash ∈ blocks.map (·.2.hash)) :
    ∃ front raw block rest, blocks = front ++ (raw, block.header) :: rest ∧ RawBlock.decode raw = .ok block ∧
      block.header.hash = header.hash ∧ (∀ later ∈ rest, later.2.hash ≠ header.hash) ∧
      (s.insertAll blocks).txs header = .ok block.toTxs := by
  obtain ⟨front, ⟨raw, read⟩, rest, rfl, same, others, found⟩ := lookup_insertAll (s := s) inserted
  obtain ⟨block, decoded, rfl⟩ := RawBlock.decodeHeader_eq_ok.1 (decodes (raw, read) (by simp))
  refine ⟨front, raw, block, rest, rfl, decoded, same, others, ?_⟩
  rw [txs_eq_txsFrom, txsFrom_eq_ok]
  exact ⟨raw, block, fetch_eq_ok.2 found, decoded, same, rfl⟩

end BlockStore

/-! ## Files of blocks -/

namespace Replay

/-- Loading succeeds exactly for files with blocks; it gives their headers, and puts each block under the hash of its
header. -/
theorem load_eq_ok {files : List BlockFile} {s s' : BlockStore} {headers : List BlockHeader} :
    load files s = .ok (s', headers) ↔ ∃ blocks : List (Bytes × BlockHeader),
      (files.map (·.content) = blocks.map fun b => .ok b.1) ∧
      (∀ b ∈ blocks, RawBlock.decodeHeader b.1 = .ok b.2) ∧
      s' = s.insertAll blocks ∧ headers = blocks.map (·.2) := by
  induction files generalizing s headers with
  | nil =>
    constructor
    · rintro ⟨⟩
      exact ⟨[], rfl, nofun, rfl, rfl⟩
    · rintro ⟨blocks, content, -, rfl, rfl⟩
      obtain rfl := List.map_eq_nil_iff.1 content.symm
      rfl
  | cons file files ih =>
    constructor
    · intro loaded
      simp only [load] at loaded
      split at loaded
      · cases loaded
      rename_i raw content
      split at loaded
      · cases loaded
      rename_i header decodes
      simp only [bind, Except.bind] at loaded
      split at loaded
      · cases loaded
      rename_i rest found
      cases loaded
      obtain ⟨blocks, contents, decodes', stored, names⟩ := ih.1 found
      refine ⟨(raw, header) :: blocks, ?_, List.forall_mem_cons.2 ⟨decodes, decodes'⟩, stored, ?_⟩
      · rw [List.map_cons, content, contents, List.map_cons]
      · rw [names, List.map_cons]
    · rintro ⟨blocks, contents, decodes, rfl, rfl⟩
      cases blocks with
      | nil => cases contents
      | cons b blocks =>
        obtain ⟨first, contents⟩ := List.cons.inj contents
        obtain ⟨header, decodes⟩ := List.forall_mem_cons.1 decodes
        have loaded : load files (s.insert b.2.hash b.1) = .ok (s.insertAll (b :: blocks), blocks.map (·.2)) :=
          ih.2 ⟨blocks, contents, decodes, rfl, rfl⟩
        simp only [load, first, header, loaded]
        rfl

/-- What was loaded has a block for each of its headers. -/
theorem source_of_load {files : List BlockFile} {s : BlockStore} {headers : List BlockHeader}
    (loaded : load files .empty = .ok (s, headers)) {header : BlockHeader} (mem : header ∈ headers) :
    ∃ raw block, .ok raw ∈ files.map (·.content) ∧ RawBlock.decode raw = .ok block ∧
      block.header.hash = header.hash ∧ s.source header = .ok block.toTxs := by
  obtain ⟨blocks, content, decodes, rfl, rfl⟩ := load_eq_ok.1 loaded
  obtain ⟨b, hb, rfl⟩ := List.mem_map.1 mem
  obtain ⟨front, raw, block, rest, split, decoded, same, -, txs⟩ :=
    BlockStore.txs_insertAll (s := .empty) decodes (List.mem_map_of_mem hb)
  refine ⟨raw, block, ?_, decoded, same, BlockStore.source_of_txs txs⟩
  rw [content, split]
  simp

end Replay

/-- Any octets either are a block to both readings, with the same header, or to neither, for the same reason. The
transactions of a block bear its slot, hash and era, their outputs its slot, and none of these is used. They are
counted from 0; their keys ascend, and so are distinct, unless they are more than 32 bits can count. Where blocks
are put under the hashes of the headers that are read off them, in any order and however often, a header with the
hash of one of them always has transactions: those of the last one that was put there. So has every header of files
that were loaded. And whatever raw blocks come from, no header has the transactions of a block with another hash. -/
theorem decoded_blocks_fetched :
    (∀ raw,
      (∀ header, RawBlock.decodeHeader raw = .ok header ↔
        ∃ block, RawBlock.decode raw = .ok block ∧ block.header = header) ∧
      (∀ e, RawBlock.decodeHeader raw = .error e ↔ RawBlock.decode raw = .error e) ∧
      ∀ block, RawBlock.decode raw = .ok block →
        (∀ tx ∈ block.toTxs, tx.OfBlock block.header) ∧
        block.toTxs.map (·.indexInBlock) = (List.range block.txs.length).map UInt32.ofNat ∧
        ((block.toTxs.Pairwise fun tx later => tx.key < later.key) ↔ block.txs.length ≤ UInt32.size)) ∧
    (∀ (s : BlockStore) (blocks : List (Bytes × BlockHeader)),
      (∀ b ∈ blocks, RawBlock.decodeHeader b.1 = .ok b.2) →
      ∀ header : BlockHeader, header.hash ∈ blocks.map (·.2.hash) →
        ∃ front raw block rest, blocks = front ++ (raw, block.header) :: rest ∧
          RawBlock.decode raw = .ok block ∧ block.header.hash = header.hash ∧
          (∀ later ∈ rest, later.2.hash ≠ header.hash) ∧ (s.insertAll blocks).txs header = .ok block.toTxs) ∧
    (∀ files s headers, Replay.load files .empty = .ok (s, headers) → ∀ header ∈ headers,
      ∃ raw block, .ok raw ∈ files.map (·.content) ∧ RawBlock.decode raw = .ok block ∧
        block.header.hash = header.hash ∧ s.source header = .ok block.toTxs) ∧
    ∀ (ε : Type) (fail : BlockStore.Error → ε) (fetch : Point → Except ε Bytes) (header : BlockHeader)
      (txs : List Tx), txsFrom fail fetch header = .ok txs → ∃ raw block, fetch header.point = .ok raw ∧
        RawBlock.decode raw = .ok block ∧ block.header.hash = header.hash ∧ txs = block.toTxs := by
  refine ⟨fun raw => ⟨fun header => ?_, fun e => ?_, fun block _ => ?_⟩, ?_, ?_, ?_⟩
  · exact RawBlock.decodeHeader_eq_ok
  · exact RawBlock.decodeHeader_eq_error
  · exact ⟨fun tx => RawBlock.ofBlock_of_mem_toTxs, block.positions_toTxs, RawBlock.ascending_toTxs_iff⟩
  · intro s blocks decodes header inserted
    exact BlockStore.txs_insertAll decodes inserted
  · intro files s headers loaded header mem
    exact Replay.source_of_load loaded mem
  · intro ε fail fetch header txs found
    exact txsFrom_eq_ok.1 found

/-- A block of the second era with two transactions, which neither spend nor create. -/
def Fixture.twoTxBlock : Bytes :=
  [0x82, 2, 0x84, 0x82, 0x8f, 5, 9, 0xf6, 0x40, 0x40, 0x82, 0x40, 0x40, 0x82, 0x40, 0x40, 0, 0x58, 32] ++
    List.replicate 32 4 ++ [0x40, 0, 0, 0x40, 0, 0, 0x40,
    0x82, 0xa3, 0, 0x80, 1, 0x80, 2, 0, 0xa3, 0, 0x80, 1, 0x80, 2, 0, 0x82, 0xa0, 0xa0, 0xa0]

open Fixture in
/-- Put into a store twice, the block is handed out with its two transactions, one after the other. -/
theorem decoded_twoTxBlock :
    ∃ block, RawBlock.decode twoTxBlock = .ok block ∧ RawBlock.decodeHeader twoTxBlock = .ok block.header ∧
      (BlockStore.empty.insertAll [(twoTxBlock, block.header), (twoTxBlock, block.header)]).txs block.header =
        .ok block.toTxs ∧
      block.toTxs.map (·.indexInBlock) = [0, 1] ∧
      block.toTxs.Pairwise fun tx later => tx.key < later.key := by
  obtain ⟨readings, fetched, -, -⟩ := decoded_blocks_fetched
  obtain ⟨headers, -, mapped⟩ := readings twoTxBlock
  have reads : (RawBlock.decode twoTxBlock).toOption.map (·.txs.length) = some 2 := by decide +kernel
  obtain ⟨block, found, two⟩ := Option.map_eq_some_iff.1 reads
  have decoded := ok_of_toOption found
  have header := (headers block.header).2 ⟨block, decoded, rfl⟩
  obtain ⟨-, positions, ascending⟩ := mapped block decoded
  refine ⟨block, decoded, header, ?_, ?_, ascending.2 (two ▸ by decide)⟩
  · obtain ⟨front, raw, block', rest, split, decoded', -, -, txs⟩ :=
      fetched .empty [(twoTxBlock, block.header), (twoTxBlock, block.header)] (by simp [header]) block.header
        (by simp)
    have mem : (raw, block'.header) ∈ [(twoTxBlock, block.header), (twoTxBlock, block.header)] := by simp [split]
    obtain rfl : raw = twoTxBlock := by simpa using List.mem_map_of_mem (f := Prod.fst) mem
    obtain rfl := Except.ok.inj (decoded.symm.trans decoded')
    exact txs
  · rw [positions, two]
    rfl

end ChainIndex
