import ChainIndex.Storage.Bucket
import ChainIndex.Storage.KeyMap

/-!
# Contents and pending writes

* `Contents`: the entries of every bucket.
* `Write`: one change. `Contents.perform` carries it out directly.
* `WriteSet`: the net effect of changes that are not carried out yet: the buckets to be emptied first,
  and for each key the value it gets or that it goes away.
* `WriteSet.add` takes one more change in, and `WriteSet.lookup` says what is pending for a key.
* `WriteSet.applyTo` carries the whole set out.
-/

namespace ChainIndex

/-! ## What a store holds -/

/-- The entries of every bucket. -/
abbrev Contents := Buckets (KeyMap Bytes)

/-- One change to a store. -/
inductive Write where
  | put (bucket : Bucket) (key value : Bytes)
  | delete (bucket : Bucket) (key : Bytes)
  | clear (bucket : Bucket)
deriving DecidableEq

namespace Contents

/-- Nothing in any bucket. -/
def empty : Contents := Buckets.all ∅

/-- The value under a key of a bucket. -/
def lookup (c : Contents) (bucket : Bucket) (key : Bytes) : Option Bytes := (c.get bucket).get? key

/-- The contents after a change. -/
def perform (c : Contents) : Write → Contents
  | .put bucket key value => c.set bucket ((c.get bucket).insert key value)
  | .delete bucket key => c.set bucket ((c.get bucket).erase key)
  | .clear bucket => c.set bucket ∅

/-- The contents after changes in order. -/
def performAll (c : Contents) (writes : List Write) : Contents := writes.foldl perform c

end Contents

/-! ## Pending writes -/

/-- The net effect of pending changes. -/
structure WriteSet where
  cleared : Buckets Bool := Buckets.all false
  entries : Buckets (KeyMap (Option Bytes)) := Buckets.all ∅
deriving DecidableEq

/-- What is pending for a key. -/
inductive PendingValue where
  | untouched
  | deleted
  | value (bytes : Bytes)
deriving DecidableEq

namespace WriteSet

/-- No pending changes. -/
def empty : WriteSet := {}

/-- Whether nothing would change: no bucket is emptied and no key is written. -/
def isEmpty (w : WriteSet) : Bool :=
  Bucket.all.all fun b => !w.cleared.get b && (w.entries.get b).isEmpty

/-- One more change. Emptying a bucket forgets what was pending for its keys. -/
def add (w : WriteSet) : Write → WriteSet
  | .put bucket key value =>
    { w with entries := w.entries.set bucket ((w.entries.get bucket).insert key (some value)) }
  | .delete bucket key =>
    { w with entries := w.entries.set bucket ((w.entries.get bucket).insert key none) }
  | .clear bucket => ⟨w.cleared.set bucket true, w.entries.set bucket ∅⟩

/-- Changes in order. -/
def ofWrites (writes : List Write) : WriteSet := writes.foldl add empty

/-- What is pending for a key: its own entry, and else that its bucket is emptied. -/
def lookup (w : WriteSet) (bucket : Bucket) (key : Bytes) : PendingValue :=
  match (w.entries.get bucket).get? key with
  | some (some bytes) => .value bytes
  | some none => .deleted
  | none => if w.cleared.get bucket then .deleted else .untouched

/-- One bucket after its pending entries. -/
def applyEntries (m : KeyMap Bytes) (entries : List (Bytes × Option Bytes)) : KeyMap Bytes :=
  entries.foldl (fun m e =>
    match e.2 with
    | some value => m.insert e.1 value
    | none => m.erase e.1) m

/-- The contents after the buckets to be emptied are, and the entries are applied. -/
def applyTo (w : WriteSet) (c : Contents) : Contents :=
  c.mapWith fun bucket m =>
    applyEntries (if w.cleared.get bucket then ∅ else m) (w.entries.get bucket).entries

end WriteSet

end ChainIndex
