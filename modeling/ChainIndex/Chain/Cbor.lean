import ChainIndex.Cbor.Record
import ChainIndex.Chain.Basic

/-!
# Stored form of hashes, points and blocks

* A hash is a byte string of exactly its length.
* `Point`: fields 0 slot, 1 hash, 2 number.
* `ConfirmedBlock`: fields 0 slot, 1 number, 2 hash, 3 era, 4 transaction hashes.
-/

namespace ChainIndex

open Cbor Cbor.Reader

/-- Reads a byte string of the hash's length. -/
def Hash.read {size : Nat} : Reader (Hash size) := do
  match Hash.ofBytes? (← byteString) with
  | some hash => return hash
  | none => throw (.message "invalid hash size")

instance : Record (Hash 32) where
  name := "watchtower_common::hash::Hash<32>"
  write hash := Write.byteString hash.bytes
  read := Hash.read

namespace Point

/-- Reads one field. -/
def Draft.readField (d : Draft) : UInt32 → Reader Draft
  | 0 => return { d with slot := some (← uint64) }
  | 1 => return { d with hash := some (← Hash.read) }
  | 2 => return { d with number := some (← uint64) }
  | _ => ignore d

/-- Reads a point. -/
def read : Reader Point := do
  let start ← get
  let d ← record Draft.readField {}
  return {
    slot := ← require start 0 "BlockPoint::slot" d.slot
    hash := ← require start 1 "BlockPoint::hash" d.hash
    number := ← require start 2 "BlockPoint::number" d.number }

/-- The octets of a point. -/
def write (p : Point) : Bytes :=
  Write.fields [
    (0, some (Write.unsigned p.slot.toNat)),
    (1, some (Write.byteString p.hash.bytes)),
    (2, some (Write.unsigned p.number.toNat))]

end Point

instance : Record Point := ⟨"watchtower_common::types::BlockPoint", Point.write, Point.read⟩

namespace ConfirmedBlock

/-- Reads one field. -/
def Draft.readField (d : Draft) : UInt32 → Reader Draft
  | 0 => return { d with slot := some (← uint64) }
  | 1 => return { d with number := some (← uint64) }
  | 2 => return { d with hash := some (← Hash.read) }
  | 3 => return { d with eraId := some (← uint8) }
  | 4 => return { d with txHashes := some (← list Hash.read) }
  | _ => ignore d

/-- Reads a block. -/
def read : Reader ConfirmedBlock := do
  let start ← get
  let d ← record Draft.readField {}
  return {
    slot := ← require start 0 "CardanoBlock::slot" d.slot
    number := ← require start 1 "CardanoBlock::number" d.number
    hash := ← require start 2 "CardanoBlock::hash" d.hash
    eraId := ← require start 3 "CardanoBlock::era_id" d.eraId
    txHashes := ← require start 4 "CardanoBlock::tx_hashes" d.txHashes }

/-- The octets of a block. -/
def write (b : ConfirmedBlock) : Bytes :=
  Write.fields [
    (0, some (Write.unsigned b.slot.toNat)),
    (1, some (Write.unsigned b.number.toNat)),
    (2, some (Write.byteString b.hash.bytes)),
    (3, some (Write.unsigned b.eraId.toNat)),
    (4, some (Write.array (b.txHashes.map fun hash => Write.byteString hash.bytes)))]

end ConfirmedBlock

instance : Record ConfirmedBlock :=
  ⟨"watchtower_common::block::CardanoBlock", ConfirmedBlock.write, ConfirmedBlock.read⟩

end ChainIndex
