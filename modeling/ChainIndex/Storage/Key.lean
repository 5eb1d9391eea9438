import ChainIndex.Chain.Basic
import ChainIndex.Ledger.Tx

/-!
# Storage keys

Numbers in keys are big-endian, so that keys in byte order stand in the order of what they encode.

* `Key.ofSlot`: 8 octets, for confirmed blocks.
* `Key.ofPosition`: slot and position in the block, 12 octets, for transactions.
* `Key.ofRef`: hash and index, 36 octets, for outputs.
* `Key.latestPoint`: the one key of the latest point.

`Key.toSlot`, `Key.toPosition` and `Key.toRef` read them back and refuse every other length.
-/

namespace ChainIndex

/-- What a key stands for. -/
inductive KeyKind where
  | slot | tx | utxo
deriving DecidableEq, Repr

namespace KeyKind

/-- How messages call the kind. -/
def name : KeyKind → String
  | slot => "slot"
  | tx => "tx"
  | utxo => "utxo"

/-- The length of every key of the kind. -/
def length : KeyKind → Nat
  | slot => 8
  | tx => 8 + 4
  | utxo => 32 + 4

end KeyKind

/-- A key of `kind` must not be `got` octets long. -/
structure KeyError where
  kind : KeyKind
  got : Nat
deriving DecidableEq, Repr

/-- The text shown for a key of the wrong length. -/
def KeyError.message (e : KeyError) : String :=
  "invalid " ++ e.kind.name ++ " key length: expected " ++ toString e.kind.length ++ ", got " ++
    toString e.got

namespace Key

/-- The key of a slot. -/
def ofSlot (slot : UInt64) : Bytes := bigEndian 8 slot.toNat

/-- The key of a transaction: the slot of its block, then its position there. -/
def ofPosition (slot : UInt64) (index : UInt32) : Bytes :=
  bigEndian 8 slot.toNat ++ bigEndian 4 index.toNat

/-- The key of an output. -/
def ofRef (r : OutputRef) : Bytes := r.hash.bytes ++ bigEndian 4 r.index.toNat

/-- The key of the latest point: the octets of "default". -/
def latestPoint : Bytes := [100, 101, 102, 97, 117, 108, 116]

/-- The slot of a key. -/
def toSlot (key : Bytes) : Except KeyError UInt64 :=
  if key.length = KeyKind.slot.length then .ok (UInt64.ofNat (ofBigEndian key))
  else .error ⟨.slot, key.length⟩

/-- The slot and position of a key. -/
def toPosition (key : Bytes) : Except KeyError (UInt64 × UInt32) :=
  if key.length = KeyKind.tx.length then
    .ok (UInt64.ofNat (ofBigEndian (key.take 8)), UInt32.ofNat (ofBigEndian (key.drop 8)))
  else .error ⟨.tx, key.length⟩

/-- The reference of a key. -/
def toRef (key : Bytes) : Except KeyError OutputRef :=
  if h : key.length = KeyKind.utxo.length then
    .ok ⟨⟨key.take 32, by rw [List.length_take, h]; rfl⟩, UInt32.ofNat (ofBigEndian (key.drop 32))⟩
  else .error ⟨.utxo, key.length⟩

end Key

/-- The storage key of a point: that of its slot. -/
def Point.key (p : Point) : Bytes := Key.ofSlot p.slot

/-- The storage key of a confirmed block: that of its slot. -/
def ConfirmedBlock.key (b : ConfirmedBlock) : Bytes := Key.ofSlot b.slot

/-- The storage key of a transaction. -/
def Tx.key (tx : Tx) : Bytes := Key.ofPosition tx.blockSlot tx.indexInBlock

/-- The storage key of the output that a reference names. -/
def OutputRef.key (r : OutputRef) : Bytes := Key.ofRef r

end ChainIndex
