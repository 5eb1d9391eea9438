import ChainIndex.Cbor.Error
import ChainIndex.Storage.Bucket

/-!
# Storage errors

* `StoreError`: why an operation on the store failed; `StoreError.message` is the text shown.
-/

namespace ChainIndex

/-- Why an operation on the store failed. -/
inductive StoreError where
  /-- The storage engine reported a failure. -/
  | backend (text : String)
  | io (text : String)
  /-- A record could not be written. -/
  | encode (what reason : String)
  /-- A stored record could not be read. -/
  | decode (what : String) (cause : Cbor.Error)
  | bucketNotFound (name : String)
  /-- A stored key does not have the length that its bucket requires. -/
  | invalidKey (bucket : Bucket) (length : Nat)
  /-- An earlier scope ended in the middle of its changes. -/
  | poisoned (lock : String)
  | config (text : String)
deriving DecidableEq, Repr

namespace StoreError

/-- The text shown for an error. -/
def message : StoreError → String
  | backend text => "storage backend error: " ++ text
  | io text => "io error: " ++ text
  | encode what reason => "encode error: failed to encode " ++ what ++ ": " ++ reason
  | decode what cause => "decode error: failed to decode " ++ what ++ ": " ++ cause.describe
  | bucketNotFound name => "bucket not found: " ++ name
  | invalidKey bucket length =>
    "invalid key in bucket " ++ bucket.name ++ ": length " ++ toString length
  | poisoned lock => "lock poisoned: " ++ lock
  | config text => "configuration error: " ++ text

end StoreError

end ChainIndex
