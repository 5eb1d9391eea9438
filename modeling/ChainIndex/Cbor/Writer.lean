import ChainIndex.Bytes.Utf8
import ChainIndex.Cbor.Reader

/-!
# Writing CBOR

* `Write.head` writes the shortest head of an item; the other functions write whole items with it.
* `Write.fields`: a definite map from field numbers to items already written, absent ones left out.
-/

namespace ChainIndex.Cbor.Write

/-- The number of a kind of item. -/
def majorNumber : Major → Nat
  | .unsigned => 0
  | .negative => 1
  | .bytes => 2
  | .text => 3
  | .array => 4
  | .map => 5
  | .tag => 6
  | .simple => 7

/-- The shortest head of an item with a number below 2^64. -/
def head (kind : Major) (n : Nat) : Bytes :=
  let first (bits : Nat) : UInt8 := UInt8.ofNat (32 * majorNumber kind + bits)
  if n < 24 then [first n]
  else if n < UInt8.size then first 24 :: bigEndian 1 n
  else if n < UInt16.size then first 25 :: bigEndian 2 n
  else if n < UInt32.size then first 26 :: bigEndian 4 n
  else first 27 :: bigEndian 8 n

/-- An unsigned number below 2^64. -/
def unsigned (n : Nat) : Bytes := head .unsigned n

/-- One of the two truth values. -/
def bool (b : Bool) : Bytes := [if b then 0xf5 else 0xf4]

/-- A definite byte string. -/
def byteString (bytes : Bytes) : Bytes := head .bytes bytes.length ++ bytes

/-- A definite text. -/
def text (s : String) : Bytes :=
  let bytes := Utf8.encode s
  head .text bytes.length ++ bytes

/-- A definite array of items already written. -/
def array (items : List Bytes) : Bytes := head .array items.length ++ items.flatten

/-- A definite map from numbers to items already written; fields without an item are left out. -/
def fields (entries : List (Nat × Option Bytes)) : Bytes :=
  let present := entries.filterMap fun (key, item?) => item?.map fun item => unsigned key ++ item
  head .map present.length ++ present.flatten

end ChainIndex.Cbor.Write
