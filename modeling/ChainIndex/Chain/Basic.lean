import ChainIndex.Hash

/-!
# Blocks and their places on the chain

* `Era`: the protocol eras in their order, each with a number (`Era.id`) and a name. `Era.ofId?` knows
  exactly the numbers of the eras (`Era.ofId?_id`).
* `Point`: the coordinates of a block: slot, hash and number. `Point.origin` stands before the first
  block; `Point.isOrigin` does not look at the number. `Point.sameBlock` compares slot and hash.
* `BlockHeader`: what the chain announces about a block. `BlockHeader.point` drops the era.
* `ConfirmedBlock`: the record kept of a block that left the rollback window, with the hashes of the
  transactions recorded for it, in block order.
* `Point.Draft`, `ConfirmedBlock.Draft`, `BlockHeader.Draft`: the fields of a record that a reader has
  met so far.
-/

namespace ChainIndex

/-! ## Eras -/

/-- An era of the Cardano protocol, oldest first. -/
inductive Era where
  | byron | shelley | allegra | mary | alonzo | babbage | conway
deriving DecidableEq, Repr, Inhabited

namespace Era

/-- The number under which records keep an era. -/
def id : Era → UInt8
  | byron => 0
  | shelley => 1
  | allegra => 2
  | mary => 3
  | alonzo => 4
  | babbage => 5
  | conway => 6

/-- Every era, oldest first. -/
def all : List Era := [byron, shelley, allegra, mary, alonzo, babbage, conway]

/-- The era of a number. -/
def ofId? (id : UInt8) : Option Era :=
  all.find? (·.id == id)

/-- The name of an era. -/
def name : Era → String
  | byron => "Byron"
  | shelley => "Shelley"
  | allegra => "Allegra"
  | mary => "Mary"
  | alonzo => "Alonzo"
  | babbage => "Babbage"
  | conway => "Conway"

/-- The era of a name. -/
def ofName? (name : String) : Option Era :=
  all.find? (·.name == name)

theorem ofId?_id (era : Era) : ofId? era.id = some era := by
  cases era <;> rfl

/-- Eras are ordered by age. -/
instance : LT Era := ⟨fun a b => a.id < b.id⟩

instance (a b : Era) : Decidable (a < b) :=
  inferInstanceAs (Decidable (a.id < b.id))

end Era

/-! ## Points -/

/-- The coordinates of a block. -/
structure Point where
  slot : UInt64
  hash : BlockHash
  number : UInt64
deriving DecidableEq, Inhabited

namespace Point

/-- The point before the first block. -/
def origin : Point := ⟨0, Hash.zero, 0⟩

/-- Slot zero with a hash of zeros, whatever the number. -/
def isOrigin (p : Point) : Bool :=
  p.slot == 0 && p.hash.isZero

/-- Whether two points name one block: equal slots and hashes. -/
def sameBlock (p q : Point) : Bool :=
  p.slot == q.slot && p.hash == q.hash

/-- A point in words. -/
def describe (p : Point) : String :=
  if p.isOrigin then "origin"
  else "slot " ++ toString p.slot ++ " block " ++ toString p.number ++ " (" ++ p.hash.toHex ++ ")"

end Point

/-! ## Headers -/

/-- The header of an announced block. -/
structure BlockHeader where
  slot : UInt64
  hash : BlockHash
  number : UInt64
  eraId : UInt8
deriving DecidableEq, Inhabited

namespace BlockHeader

/-- Where the block stands. -/
def point (h : BlockHeader) : Point := ⟨h.slot, h.hash, h.number⟩

/-- The era, when the number is that of one. -/
def era? (h : BlockHeader) : Option Era := Era.ofId? h.eraId

end BlockHeader

/-! ## Confirmed blocks -/

/-- The record of a confirmed block. -/
structure ConfirmedBlock where
  slot : UInt64
  number : UInt64
  hash : BlockHash
  eraId : UInt8
  txHashes : List TxHash
deriving DecidableEq, Inhabited

namespace ConfirmedBlock

/-- The record of a header with the hashes of some of its transactions. -/
def ofHeader (h : BlockHeader) (txHashes : List TxHash) : ConfirmedBlock :=
  ⟨h.slot, h.number, h.hash, h.eraId, txHashes⟩

/-- Where the block stands. -/
def point (b : ConfirmedBlock) : Point := ⟨b.slot, b.hash, b.number⟩

@[simp] theorem point_ofHeader (h : BlockHeader) (txHashes : List TxHash) :
    (ofHeader h txHashes).point = h.point := rfl

end ConfirmedBlock

/-! ## Records being read -/

/-- The fields of a header met so far. -/
structure BlockHeader.Draft where
  slot : Option UInt64 := none
  hash : Option BlockHash := none
  number : Option UInt64 := none
  eraId : Option UInt8 := none

/-- The fields of a point met so far. -/
structure Point.Draft where
  slot : Option UInt64 := none
  hash : Option BlockHash := none
  number : Option UInt64 := none

/-- The fields of a block met so far. -/
structure ConfirmedBlock.Draft where
  slot : Option UInt64 := none
  number : Option UInt64 := none
  hash : Option BlockHash := none
  eraId : Option UInt8 := none
  txHashes : Option (List TxHash) := none

end ChainIndex
