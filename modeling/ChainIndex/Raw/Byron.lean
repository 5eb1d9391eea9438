import ChainIndex.Chain.Basic
import ChainIndex.Raw.Tx

/-!
# Byron

* `Byron.readTx`, `Byron.readOutput`: transactions and outputs. A transaction has no fee of its own, no
  metadata, and is always valid.
* `Byron.Header`: what is used of a header: epoch, slot within the epoch and difficulty.
  `Byron.absoluteSlot` counts the slot from the start of the chain.
* `Byron.readBlock`, `Byron.readBoundary`: blocks with transactions, and the blocks between epochs, which
  have none.
-/

namespace ChainIndex.Byron

open Cbor Cbor.Reader

/-! ## Transactions -/

/-- Reads an output; its address comes in parts. -/
def readOutput : Reader RawOutput :=
  items do
    let (payload, crc) ← Items.next Address.readByron
    return ⟨.ok (.byron payload crc), ← Items.next uint64, [], none⟩

/-- Reads an input. One of an unknown kind names no output. -/
def readInput : Reader (Option RawRef) := do
  let _ ← arrayHead
  if (← uint8) = 0 then
    let (hash, index) ← wrapped (pair (Raw.hash 32) uint32)
    return some ⟨hash, UInt64.ofNat index.toNat⟩
  else
    Cbor.Shape.bytes
    return none

/-- Reads the body of a transaction. -/
def readBody : Reader RawBody :=
  items do
    let inputs ← Items.next (list readInput)
    let outputs ← Items.next (list readOutput)
    Items.next skip
    return ⟨inputs.filterMap id, outputs, 0, [], none⟩

/-- A key with its signature, or a script with its arguments, inside a tagged byte string. -/
def witness : Cbor.Shape := do
  let _ ← arrayHead
  let keyed : Cbor.Shape := wrapped (Cbor.Shape.tuple [.bytes, .bytes])
  let script : Cbor.Shape := .tuple [.uint16, .bytes]
  match ← uint8 with
  | 0 => keyed
  | 1 => wrapped (Cbor.Shape.tuple [script, script])
  | 2 => keyed
  | _ => Cbor.Shape.bytes

/-- Reads a transaction with its witnesses. -/
def readTx : Reader RawTx :=
  items do
    let (body, octets) ← Items.next (withOctets readBody)
    Items.next (Cbor.Shape.array witness)
    return .ofBody body octets true none

/-! ## Other payloads of a block -/

/-- An array of at most one item, definite. -/
def zeroOrOne (item : Cbor.Shape) : Cbor.Shape := do
  match ← arrayHead with
  | some 0 => return ()
  | some 1 => item
  | _ => throw (.message "invalid length for zero-or-one")

/-- Certificates of the keys of the shared seed. -/
def seedCertificates : Cbor.Shape :=
  tagged (Cbor.Shape.array (.record [.bytes, .uint64, .bytes, .bytes]))

/-- Commitments to a share of the seed. -/
def seedCommitments : Cbor.Shape :=
  tagged (Cbor.Shape.array (.tuple [
    .bytes,
    .tuple [.map .bytes (.array .bytes), .record [.bytes, .bytes, .bytes, .array .bytes]],
    .bytes]))

/-- The part of a block that agrees on a shared seed. -/
def seedPayload : Cbor.Shape :=
  let opened := Cbor.Shape.map Raw.Shape.keyHash .bytes
  let shares := Cbor.Shape.map Raw.Shape.keyHash (.map Raw.Shape.keyHash (.array .bytes))
  .variant [
    (0, [seedCommitments, seedCertificates]), (1, [opened, seedCertificates]),
    (2, [shares, seedCertificates]), (3, [seedCertificates])]

/-- The proof of the part that agrees on a shared seed. -/
def seedProof : Cbor.Shape :=
  let hash := Raw.Shape.hash
  .variant [(0, [hash, hash]), (1, [hash, hash]), (2, [hash, hash]), (3, [hash])]

/-- A delegation for an epoch. -/
def delegation : Cbor.Shape := .record [.uint64, .bytes, .bytes, .bytes]

/-- A delegation for a range of epochs. -/
def rangeDelegation : Cbor.Shape := .record [.tuple [.uint64, .uint64], .bytes, .bytes, .bytes]

/-- A version of the protocol. -/
def blockVersion : Cbor.Shape := .tuple [.uint16, .uint16, .uint8]

/-- A version of a program. -/
def softwareVersion : Cbor.Shape := .tuple [.text, .uint32]

/-- How fees are counted. -/
def feePolicy : Cbor.Shape := do
  let _ ← arrayHead
  if (← uint8) = 0 then wrapped (Cbor.Shape.tuple [.int64 true, .int64 true])
  else Cbor.Shape.bytes

/-- Changes of the parameters of the protocol, each of which may be left out. -/
def versionChange : Cbor.Shape :=
  let number := zeroOrOne .uint64
  .record (zeroOrOne .uint16 :: List.replicate 10 number ++
    [zeroOrOne (.tuple [.uint64, .uint64, .uint64]), zeroOrOne feePolicy, number])

/-- A proposal to update the protocol. -/
def updateProposal : Cbor.Shape :=
  let hash := Raw.Shape.hash
  .recordWith [] [
    blockVersion, versionChange, softwareVersion,
    .map .text (.tuple [hash, hash, hash, hash]), skip, .bytes, .bytes]

/-- The part of a block that updates the protocol. -/
def updatePayload : Cbor.Shape :=
  .record [zeroOrOne updateProposal, .array (.record [.bytes, Raw.Shape.hash, .bool, .bytes])]

/-! ## Headers -/

/-- What is used of a header. -/
structure Header where
  epoch : UInt64
  slot : UInt64
  difficulty : List UInt64

/-- Number of slots of an epoch in this era. -/
def slotsPerEpoch : Nat := 21600

/-- Number of slots of an epoch in the eras since. -/
def slotsPerEpochSinceShelley : Nat := 432000

/-- The first epoch of the eras since. -/
def firstShelleyEpoch : Nat := 208

/-- The slot counted from the start of the chain, for any epoch. -/
def absoluteSlot (epoch slot : Nat) : Nat :=
  if epoch < firstShelleyEpoch then slotsPerEpoch * epoch + slot
  else slotsPerEpoch * firstShelleyEpoch +
    slotsPerEpochSinceShelley * (epoch - firstShelleyEpoch) + slot

/-- The header as the index keeps it. The hash is taken of an array of `kind` and the header; the number
is the first of the difficulty. -/
def Header.toHeader (header : Header) (kind : UInt8) (octets : Bytes) : BlockHeader where
  slot := UInt64.ofNat (absoluteSlot header.epoch.toNat header.slot.toNat)
  hash := blake2b256 (0x82 :: kind :: octets)
  number := header.difficulty.headD 0
  eraId := Era.byron.id

/-- The signature of a header: plain, or by a delegate. -/
def headerSignature : Cbor.Shape :=
  .variant [
    (0, [.bytes]), (1, [.tuple [rangeDelegation, .bytes]]), (2, [.tuple [delegation, .bytes]])]

/-- Reads what a header says about its place. -/
def readPlace : Reader Header :=
  items do
    let (epoch, slot) ← Items.next (items do
      let epoch ← Items.next uint64
      return (epoch, ← Items.next uint64))
    Items.next Cbor.Shape.bytes
    let difficulty ← Items.next (list uint64)
    Items.next headerSignature
    return ⟨epoch, slot, difficulty⟩

/-- Reads a header. -/
def readHeader : Reader Header :=
  let hash := Raw.Shape.hash
  items do
    Items.next Cbor.Shape.uint32
    Items.next hash
    Items.next (Cbor.Shape.record [.tuple [.uint32, hash, hash], seedProof, hash, hash])
    let header ← Items.next readPlace
    Items.next (items do
      Items.next blockVersion
      Items.next softwareVersion
      Items.next (Cbor.Shape.optional skip)
      Items.next hash)
    return header

/-- Reads the header of a block between epochs. -/
def readBoundaryHeader : Reader Header :=
  items do
    Items.next Cbor.Shape.uint32
    Items.next Raw.Shape.hash
    Items.next Raw.Shape.hash
    let (epoch, difficulty) ← Items.next (items do
      let epoch ← Items.next uint64
      return (epoch, ← Items.next (list uint64)))
    Items.next (Cbor.Shape.tuple [skip])
    return ⟨epoch, 0, difficulty⟩

/-! ## Blocks -/

/-- Reads a block with transactions. -/
def readBlock : Reader (BlockHeader × List RawTx) :=
  items do
    let (header, octets) ← Items.next (withOctets readHeader)
    let txs ← Items.next (items do
      let txs ← Items.next (list readTx)
      Items.next seedPayload
      Items.next (Cbor.Shape.array delegation)
      Items.next updatePayload
      return txs)
    Items.next (Cbor.Shape.array skip)
    return (header.toHeader 1 octets, txs)

/-- Reads a block between epochs. -/
def readBoundary : Reader (BlockHeader × List RawTx) :=
  items do
    let (header, octets) ← Items.next (withOctets readBoundaryHeader)
    Items.next (Cbor.Shape.array Raw.Shape.keyHash)
    Items.next (Cbor.Shape.array skip)
    return (header.toHeader 0 octets, [])

end ChainIndex.Byron
