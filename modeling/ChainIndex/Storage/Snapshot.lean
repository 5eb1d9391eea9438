import ChainIndex.Cbor.Items
import ChainIndex.Cbor.Writer
import ChainIndex.Storage.WriteSet

/-!
# Contents as octets

* `Contents.encode` writes the entries of every bucket, and `Contents.decode` reads them back.
-/

namespace ChainIndex.Contents

open Cbor

/-- An entry as an array of its key and its value. -/
def encodeEntry (entry : Bytes × Bytes) : Bytes :=
  Write.array [Write.byteString entry.1, Write.byteString entry.2]

/-- The entries of every bucket, in the order of the buckets. -/
def encode (c : Contents) : Bytes :=
  Write.array (Bucket.all.map fun bucket => Write.array ((c.get bucket).entries.map encodeEntry))

/-- The contents with the entries of one more bucket. -/
def readBucket (c : Contents) (bucket : Bucket) : Reader Contents := do
  let entries ← Reader.list (Reader.pair Reader.byteString Reader.byteString)
  return c.set bucket ((c.get bucket).insertAll entries)

/-- Reads the entries of every bucket. -/
def read : Reader Contents := do
  Reader.tupleHead Bucket.all.length
  Bucket.all.foldlM readBucket .empty

/-- The contents that octets hold. -/
def decode (bytes : Bytes) : Except Cbor.Error Contents := Reader.runFront read bytes

end ChainIndex.Contents
