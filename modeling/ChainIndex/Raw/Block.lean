import ChainIndex.Chain.Basic
import ChainIndex.Raw.Byron

/-!
# Raw blocks

* `RawBlock`: the header and the transactions of a block in its binary form.
* `RawBlock.decode` reads one: a definite array of a number, which tells the era, and the block. A number
  that no era has, or none at all, makes the octets `unknown`; everything behind it, `invalid`.
* `RawBlock.decodeHeader` gives the header alone.
* `RawTx.decode`, `RawOutput.decode`: a transaction or an output that stands alone.
-/

namespace ChainIndex

open Cbor Cbor.Reader

/-- A block in its binary form. -/
structure RawBlock where
  header : BlockHeader
  txs : List RawTx

/-- Why octets are not a block. -/
inductive RawBlock.Error where
  /-- It cannot be told what they are. -/
  | unknown
  /-- They are announced as a block and are not one. -/
  | invalid (error : Cbor.Error)
deriving DecidableEq, Repr

/-- The text shown for an error. -/
def RawBlock.Error.describe : RawBlock.Error → String
  | unknown => "unknown CBOR structure"
  | invalid error => "invalid CBOR structure: " ++ error.describe

namespace RawBlock

/-- A key that hides a number, with its proof. -/
def proof : Cbor.Shape := .record [.bytes, .bytes]

/-- Reads number and slot off the body of a header. -/
def readHeaderBody (form : Raw.Form) : Reader (UInt64 × UInt64) :=
  items do
    let number ← Items.next uint64
    let slot ← Items.next uint64
    Items.next (Cbor.Shape.optional Raw.Shape.hash)
    match form with
    | .shelley =>
      [.bytes, .bytes, proof, proof, .uint64, Raw.Shape.hash, .bytes, .uint64, .uint64, .bytes,
        .uint64, .uint64].forM Items.next
    | _ =>
      [.bytes, .bytes, proof, .uint64, Raw.Shape.hash, .record [.bytes, .uint64, .uint64, .bytes],
        Raw.Shape.protocolVersion].forM Items.next
    return (number, slot)

/-- Reads number and slot off a header. -/
def readHeader (form : Raw.Form) : Reader (UInt64 × UInt64) :=
  items do
    let place ← Items.next (readHeaderBody form)
    Items.next Cbor.Shape.bytes
    return place

/-- The transactions of a block. A body needs witnesses at the same position; a transaction is valid
unless its position is listed, and its metadata is the first under its position. -/
def assemble (bodies : List (RawBody × Bytes)) (witnesses : Nat)
    (metadata : List (UInt32 × Bytes)) (invalid : List UInt32) : List RawTx :=
  (bodies.take witnesses).zipIdx.map fun ((body, octets), index) =>
    let position := UInt32.ofNat index
    .ofBody body octets (!invalid.contains position) (metadata.lookup position)

/-- Reads a block of an era since Shelley. -/
def readSinceShelley (era : Era) (form : Raw.Form) : Reader (BlockHeader × List RawTx) :=
  items do
    let ((number, slot), octets) ← Items.next (withOctets (readHeader form))
    let bodies ← Items.next (list (withOctets (RawBody.read form)))
    let witnesses ← Items.next (list (Raw.Shape.witnesses form))
    let metadata ← Items.next (entries uint32 (withOctets Raw.Shape.auxiliaryData))
    let invalid ← Items.nextOptional (list uint32)
    let metadata := metadata.map fun (position, ((), octets)) => (position, octets)
    return (⟨slot, blake2b256 octets, number, era.id⟩,
      assemble bodies witnesses.length metadata (invalid.getD []))

/-- What the number in front of a block says about it. -/
def reader? (number : UInt8) : Option (Reader (BlockHeader × List RawTx)) :=
  match number with
  | 0 => some Byron.readBoundary
  | 1 => some Byron.readBlock
  | 2 => some (readSinceShelley .shelley .shelley)
  | 3 => some (readSinceShelley .allegra .shelley)
  | 4 => some (readSinceShelley .mary .shelley)
  | 5 => some (readSinceShelley .alonzo .shelley)
  | 6 => some (readSinceShelley .babbage .babbage)
  | 7 => some (readSinceShelley .conway .conway)
  | _ => none

/-- The number in front of a block, in at most one octet behind its head. -/
def number : Reader UInt8 := do
  tupleHead 2
  if 24 < info (← peek) then throw (.unexpected "number")
  uint8

/-- Reads a block; octets behind it do not matter. -/
def decode (octets : Bytes) : Except Error RawBlock :=
  match number octets with
  | .error _ => .error .unknown
  | .ok (number, rest) =>
    match reader? number with
    | none => .error .unknown
    | some reader =>
      match runFront reader rest with
      | .ok (header, txs) => .ok ⟨header, txs⟩
      | .error e => .error (.invalid e)

/-- The header of a block. -/
def decodeHeader (octets : Bytes) : Except Error BlockHeader := do
  return (← decode octets).header

/-- The transactions as the index keeps them, with their positions in the block. -/
def toTxs (block : RawBlock) : List Tx :=
  block.txs.zipIdx.map fun (tx, index) =>
    tx.toTx block.header.slot block.header.hash (UInt32.ofNat index) block.header.eraId

end RawBlock

/-- Reads a transaction of an era that stands alone. -/
def RawTx.decode (era : Era) (octets : Bytes) : Except Cbor.Error RawTx :=
  match Raw.Form.ofEra? era with
  | none => runFront Byron.readTx octets
  | some form => runFront (RawTx.read form) octets

/-- Reads an output of an era that stands alone. -/
def RawOutput.decode (era : Era) (octets : Bytes) : Except Cbor.Error RawOutput :=
  match Raw.Form.ofEra? era with
  | none => runFront Byron.readOutput octets
  | some form => runFront (RawOutput.read form) octets

end ChainIndex
