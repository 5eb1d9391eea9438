import ChainIndex.Cbor.Items
import ChainIndex.Cbor.Writer
import ChainIndex.Hash

/-!
# Addresses

* `Address`: where an output may go: to a Byron address, to a payment credential with or without a part
  that earns the rewards, or to a reward account.
* `Address.ofBytes` reads the binary form and `Address.toBytes` writes it. The first octet holds the kind
  in its upper half and the network in its lower half; octets beyond the parts of an address are dropped.
* `Address.Error`: why octets are not an address, or why an address has no text.
-/

namespace ChainIndex

/-- The network that an address belongs to. -/
inductive Network where
  | test
  | main
  /-- Any other number of four bits. -/
  | other (number : Nat)
deriving DecidableEq, Repr

namespace Network

/-- The network of a number. -/
def ofNumber : Nat → Network
  | 0 => test
  | 1 => main
  | n => other n

/-- The number of a network. -/
def number : Network → Nat
  | test => 0
  | main => 1
  | other n => n

end Network

/-- Who may spend: the holder of a key or a script. -/
inductive Credential where
  | key (hash : Hash 28)
  | script (hash : Hash 28)
deriving DecidableEq

namespace Credential

/-- The hash of the key or script. -/
def hash : Credential → Hash 28
  | key hash => hash
  | script hash => hash

/-- The bit that tells scripts from keys. -/
def bit : Credential → Nat
  | key _ => 0
  | script _ => 1

/-- The credential of a hash. -/
def ofBit (isScript : Bool) (hash : Hash 28) : Credential :=
  if isScript then script hash else key hash

end Credential

/-- Who earns the rewards of a payment address. -/
inductive Delegation where
  | credential (credential : Credential)
  /-- The registration at a place of the chain. -/
  | pointer (slot txIndex certificateIndex : UInt64)
  | none
deriving DecidableEq

/-- Where an output may go. -/
inductive Address where
  | byron (payload : Bytes) (crc : UInt32)
  | payment (network : Network) (owner : Credential) (delegation : Delegation)
  | reward (network : Network) (credential : Credential)
deriving DecidableEq

namespace Address

/-- Why octets are not an address, or why an address has no text. -/
inductive Error where
  | missingHeader
  | invalidHeader (header : UInt8)
  | invalidLength (length : Nat)
  | invalidByron (error : Cbor.Error)
  /-- Addresses of this network have no agreed text. -/
  | unknownNetwork (number : Nat)
  /-- A number of a pointer is cut off. -/
  | pointerCutOff
deriving DecidableEq, Repr

/-! ## Numbers of pointers -/

/-- Reads a number in groups of seven bits, most significant first, where a set top bit says that another
group follows. One that outgrows 64 bits counts as the largest, as soon as it does. -/
def readNumber : (soFar : Nat) → Bytes → Option (UInt64 × Bytes)
  | _, [] => none
  | soFar, byte :: rest =>
    let n := soFar * 128 + byte.toNat % 128
    if UInt64.size ≤ n then some (UInt64.ofNat (UInt64.size - 1), rest)
    else if byte.toNat < 128 then some (UInt64.ofNat n, rest)
    else readNumber n rest

/-- The groups of a number, all but the last with the top bit set, in front of `rest`. -/
def writeNumber (n : Nat) (rest : Bytes) : Bytes :=
  if n = 0 then rest else writeNumber (n / 128) (UInt8.ofNat (n % 128 + 128) :: rest)
termination_by n
decreasing_by omega

/-- The shortest form of a number. -/
def numberBytes (n : UInt64) : Bytes :=
  writeNumber (n.toNat / 128) [UInt8.ofNat (n.toNat % 128)]

/-! ## Reading -/

/-- The hash at the front of the parts of an address, and the rest. -/
def takeHash (payload : Bytes) : Except Error (Hash 28 × Bytes) :=
  match Hash.ofBytes? (payload.take 28) with
  | some hash => .ok (hash, payload.drop 28)
  | none => .error (.invalidLength payload.length)

/-- Refuses parts that are shorter than they should be. -/
def checkLength (payload : Bytes) (least : Nat) : Except Error Unit :=
  if payload.length < least then .error (.invalidLength payload.length) else .ok ()

/-- A pointer; octets behind it are dropped. -/
def readPointer (payload : Bytes) : Except Error Delegation := do
  let number (bytes : Bytes) : Except Error (UInt64 × Bytes) :=
    match readNumber 0 bytes with
    | some result => .ok result
    | none => .error .pointerCutOff
  let (slot, rest) ← number payload
  let (txIndex, rest) ← number rest
  let (certificateIndex, _) ← number rest
  return .pointer slot txIndex certificateIndex

/-- The two items of a Byron address: the payload under a tag, and its checksum. -/
def readByron : Cbor.Reader (Bytes × UInt32) :=
  Cbor.Reader.items do
    let payload ← Cbor.Items.next (Cbor.Reader.tagged Cbor.Reader.byteString)
    let crc ← Cbor.Items.next Cbor.Reader.uint32
    return (payload, crc)

/-- Reads an address. -/
def ofBytes (bytes : Bytes) : Except Error Address :=
  match bytes with
  | [] => .error .missingHeader
  | header :: payload => do
    let kind := header.toNat / 16
    let network := Network.ofNumber (header.toNat % 16)
    let isScript := kind % 2 == 1
    if kind < 4 then
      checkLength payload 56
      let (owner, rest) ← takeHash payload
      let (delegate, _) ← takeHash rest
      return .payment network (.ofBit isScript owner)
        (.credential (.ofBit (kind / 2 == 1) delegate))
    else if kind < 6 then
      checkLength payload 29
      let (owner, rest) ← takeHash payload
      return .payment network (.ofBit isScript owner) (← readPointer rest)
    else if kind < 8 then
      checkLength payload 28
      let (owner, _) ← takeHash payload
      return .payment network (.ofBit isScript owner) .none
    else if kind = 8 then
      match Cbor.Reader.runFront readByron bytes with
      | .ok (payload, crc) => return .byron payload crc
      | .error e => throw (.invalidByron e)
    else if kind < 14 then throw (.invalidHeader header)
    else
      checkLength payload 28
      let (hash, _) ← takeHash payload
      return .reward network (.ofBit isScript hash)

/-! ## Writing -/

/-- The kind in the upper half of the first octet. -/
def kind : Address → Nat
  | byron _ _ => 8
  | payment _ owner (.credential delegate) => 2 * delegate.bit + owner.bit
  | payment _ owner (.pointer _ _ _) => 4 + owner.bit
  | payment _ owner .none => 6 + owner.bit
  | reward _ credential => 14 + credential.bit

/-- The octets of the part that earns the rewards. -/
def delegationBytes : Delegation → Bytes
  | .credential credential => credential.hash.bytes
  | .pointer slot txIndex certificateIndex =>
    numberBytes slot ++ numberBytes txIndex ++ numberBytes certificateIndex
  | .none => []

/-- The first octet. -/
def header (address : Address) (network : Network) : UInt8 :=
  UInt8.ofNat (16 * address.kind + network.number)

/-- The tag of a byte string that holds CBOR. -/
def embeddedTag : Nat := 24

/-- The binary form. -/
def toBytes (address : Address) : Bytes :=
  match address with
  | byron payload crc =>
    Cbor.Write.array [
      Cbor.Write.head .tag embeddedTag ++ Cbor.Write.byteString payload,
      Cbor.Write.unsigned crc.toNat]
  | payment network owner delegation =>
    address.header network :: owner.hash.bytes ++ delegationBytes delegation
  | reward network credential => address.header network :: credential.hash.bytes

end Address

end ChainIndex
