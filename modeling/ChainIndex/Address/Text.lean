import ChainIndex.Address.Basic
import ChainIndex.Bytes.Basic

/-!
# Text of addresses

* `Base58.encode`: octets as a number in base 58, with one `1` for each zero octet in front.
* `Bech32.encode`: a human-readable part, the separator `1`, the octets in groups of five bits, and six
  characters of checksum.
* `Address.text`: Base58 for Byron addresses, Bech32 for the others, under a label that tells payment from
  reward addresses and the test network from the main one.
* `Address.textOfBytes`: the text of an address in its binary form.
-/

/-! ## Base58 -/

namespace ChainIndex.Base58

/-- The digits, in order of value; those that look alike are left out. -/
def alphabet : List Char :=
  "123456789ABCDEFGHJKLMNPQRSTUVWXYZabcdefghijkmnopqrstuvwxyz".toList

/-- The digits of a number, most significant first; zero has none. -/
def digits (n : Nat) : List Char :=
  if n = 0 then [] else digits (n / 58) ++ [alphabet.getD (n % 58) '1']
termination_by n
decreasing_by omega

/-- The Base58 form of octets. -/
def encode (bytes : Bytes) : String :=
  let zeros := (bytes.takeWhile (· == 0)).length
  String.ofList (List.replicate zeros '1' ++ digits (ofBigEndian bytes))

end ChainIndex.Base58

/-! ## Bech32 -/

namespace ChainIndex.Bech32

/-- The characters for the values of five bits, in order. -/
def alphabet : List Char := "qpzry9x8gf2tvdw0s3jn54khce6mua7l".toList

/-- The octets as bits, most significant first. -/
def bits (bytes : Bytes) : List Bool :=
  bytes.flatMap fun byte => (List.range 8).map fun i => byte.toNat.testBit (7 - i)

/-- The number that bits spell, most significant first. -/
def ofBits (bits : List Bool) : Nat := bits.foldl (fun n bit => 2 * n + bit.toNat) 0

/-- Bits in groups of five; the last group is filled up with zeros. -/
def groups (bits : List Bool) : List Nat :=
  match bits with
  | [] => []
  | a :: rest => ofBits (((a :: rest) ++ List.replicate 4 false).take 5) :: groups (rest.drop 4)
termination_by bits.length
decreasing_by rw [List.length_drop, List.length_cons]; omega

/-- What the bits shifted out of the checksum add to it. -/
def generator : List Nat := [0x3b6a57b2, 0x26508e6d, 0x1ea119fa, 0x3d4233dd, 0x2a1462b3]

/-- Takes a value into the checksum. -/
def checksumStep (checksum value : Nat) : Nat :=
  let top := checksum >>> 25
  let shifted := ((checksum &&& 0x1ffffff) <<< 5) ^^^ value
  generator.zipIdx.foldl (fun c (g, i) => if top.testBit i then c ^^^ g else c) shifted

/-- The human-readable part as the checksum takes it. -/
def expand (label : String) : List Nat :=
  label.toList.map (·.toNat >>> 5) ++ [0] ++ label.toList.map (·.toNat &&& 31)

/-- The six values of the checksum. -/
def checksum (label : String) (values : List Nat) : List Nat :=
  let c := (expand label ++ values ++ List.replicate 6 0).foldl checksumStep 1 ^^^ 1
  (List.range 6).map fun i => (c >>> (5 * (5 - i))) &&& 31

/-- The Bech32 form of octets under a human-readable part. -/
def encode (label : String) (bytes : Bytes) : String :=
  let values := groups (bits bytes)
  let characters := (values ++ checksum label values).map (alphabet.getD · 'q')
  String.ofList (label.toList ++ '1' :: characters)

end ChainIndex.Bech32

/-! ## Addresses -/

namespace ChainIndex.Address

/-- What a Bech32 label ends in on a network. -/
def labelSuffix : Network → Except Error String
  | .test => .ok "_test"
  | .main => .ok ""
  | .other number => .error (.unknownNetwork number)

/-- The usual text of an address. -/
def text (address : Address) : Except Error String :=
  match address with
  | byron _ _ => .ok (Base58.encode address.toBytes)
  | payment network _ _ => do return Bech32.encode ("addr" ++ (← labelSuffix network)) address.toBytes
  | reward network _ => do return Bech32.encode ("stake" ++ (← labelSuffix network)) address.toBytes

/-- The text of an address in its binary form. -/
def textOfBytes (bytes : Bytes) : Except Error String := do
  text (← ofBytes bytes)

end ChainIndex.Address
