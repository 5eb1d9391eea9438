import ChainIndex.Indexer.Basic
import ChainIndex.Raw.Block

/-!
# Raw blocks as a source of transactions

* `BlockStore`: raw blocks in memory, by hash.
* `BlockStore.txs` fetches the block of a header, reads it and hands out its transactions, provided that
  the block has the hash of the header; `BlockStore.source` does so for an indexer.
-/

namespace ChainIndex

/-- Raw blocks by hash; each hash occurs once. -/
structure BlockStore where
  blocks : List (BlockHash × Bytes) := []

namespace BlockStore

/-- Why a block cannot be had. -/
inductive Error where
  | missing (point : Point)
  | unreadable (error : RawBlock.Error)
  | otherHash (slot : UInt64) (found expected : BlockHash)

/-- The text shown for an error. -/
def Error.describe : Error → String
  | missing point => "no block for " ++ point.describe
  | unreadable error => error.describe
  | otherHash slot found expected =>
    "block at slot " ++ toString slot ++ " has hash " ++ found.toHex ++ ", expected " ++
      expected.toHex

/-- A store without blocks. -/
def empty : BlockStore := {}

/-- Number of blocks. -/
def size (s : BlockStore) : Nat := s.blocks.length

/-- Sets the block of a hash. -/
def insert (s : BlockStore) (hash : BlockHash) (raw : Bytes) : BlockStore :=
  ⟨(hash, raw) :: s.blocks.filter (·.1 ≠ hash)⟩

/-- The raw block at a point, which is found by its hash. -/
def fetch (s : BlockStore) (point : Point) : Except Error Bytes :=
  match s.blocks.lookup point.hash with
  | some raw => .ok raw
  | none => .error (.missing point)

/-- The transactions of the block of a header. -/
def txs (s : BlockStore) (header : BlockHeader) : Except Error (List Tx) := do
  match RawBlock.decode (← s.fetch header.point) with
  | .error e => throw (.unreadable e)
  | .ok block =>
    if block.header.hash ≠ header.hash then
      throw (.otherHash header.slot block.header.hash header.hash)
    return block.toTxs

/-- The store as the source of an indexer. -/
def source (s : BlockStore) : BlockSource := fun header =>
  match s.txs header with
  | .ok txs => .ok txs
  | .error e => .error e.describe

end BlockStore

end ChainIndex
