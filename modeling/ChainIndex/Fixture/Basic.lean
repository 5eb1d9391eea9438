import ChainIndex.Chain.Basic
import ChainIndex.Ledger.Tx

/-!
# Made-up chain data

Blocks and transactions that are determined by their slot and position, for examples and trials.

* `Fixture.header`, `Fixture.point`: the block of a slot, numbered by it, in the last era.
* `Fixture.tx`: a valid transaction of that block.
-/

namespace ChainIndex.Fixture

/-- A hash that begins with some octets and ends in a mark. -/
def markedHash (front : Bytes) (mark : UInt8) : Hash 32 :=
  ⟨(front ++ List.replicate 31 0).take 31 ++ [mark], by simp⟩

/-- The hash of the block at a slot, never zero. -/
def blockHash (slot : UInt64) : BlockHash := markedHash (bigEndian 8 slot.toNat) 0xb1

/-- The hash of the transaction at a position of the block at a slot. -/
def txHash (slot : UInt64) (index : UInt32) : TxHash :=
  markedHash (bigEndian 8 slot.toNat ++ bigEndian 4 index.toNat) 0x7c

/-- The header of the block at a slot. -/
def header (slot : UInt64) : BlockHeader := ⟨slot, blockHash slot, slot, Era.conway.id⟩

/-- Where the block at a slot stands. -/
def point (slot : UInt64) : Point := (header slot).point

/-- An output of an amount to an address. -/
def output (address : String) (amount : UInt64) : TxOutput := { address, amount }

/-- A valid transaction at a position of the block at a slot. -/
def tx (slot : UInt64) (index : UInt32) (inputs : List OutputRef) (outputs : List TxOutput) : Tx where
  blockSlot := slot
  blockHash := blockHash slot
  indexInBlock := index
  hash := txHash slot index
  eraId := Era.conway.id
  metadata := none
  fee := 170000
  isValid := true
  inputs := inputs.map .unresolved
  outputs := outputs
  firstOutputIndex := 0

end ChainIndex.Fixture
