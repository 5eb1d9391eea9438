import ChainIndex.Storage.Error
import ChainIndex.Storage.WriteSet

/-!
# Storage engines

* `Engine`: contents on some `Medium`, together with the `Faults` that its calls meet at present.
* `Engine.get` and `Engine.scan` read; `Engine.commit` carries out a write set.
* In memory, `Memory.commit` is `WriteSet.applyTo`. A durable engine translates the write set into a
  batch of insertions and removals of single keys (`Durable.batch`), which is applied as a whole
  (`Durable.applyBatch`) and then, if asked for, brought to the disk; that last call can fail on its
  own, after the batch took effect.
-/

namespace ChainIndex

/-- Where contents are kept. -/
inductive Medium where
  | memory
  /-- On disk; with `syncWrites` every commit waits for the disk. -/
  | durable (syncWrites : Bool)
deriving DecidableEq, Repr

/-- Which calls on an engine fail at present, and how. -/
structure Faults where
  /-- The same key can be had for one scope and not for the next, so look-ups of reading and of writing
  scopes fail apart from each other. -/
  get : (writing : Bool) → Bucket → Bytes → Option StoreError := fun _ _ _ => none
  scan : Bucket → KeyRange → Direction → Option StoreError := fun _ _ _ => none
  commit : WriteSet → Option StoreError := fun _ => none
  sync : Option StoreError := none

/-- No call fails. -/
def Faults.never : Faults := {}

/-- Succeeds unless a fault is given. -/
def Faults.raise : Option StoreError → Except StoreError Unit
  | some e => .error e
  | none => .ok ()

namespace Memory

/-- The contents after a commit. -/
def commit (w : WriteSet) (c : Contents) : Contents := w.applyTo c

end Memory

namespace Durable

/-- A change of one key, as a batch holds it. -/
inductive KeyChange where
  | insert (bucket : Bucket) (key value : Bytes)
  | remove (bucket : Bucket) (key : Bytes)
deriving DecidableEq

/-- The bucket and the key that a change is about. -/
def KeyChange.target : KeyChange → Bucket × Bytes
  | insert bucket key _ => (bucket, key)
  | remove bucket key => (bucket, key)

/-- The removals that empty a bucket: every stored key that the write set does not write itself. -/
def clearing (w : WriteSet) (c : Contents) (bucket : Bucket) : List KeyChange :=
  if w.cleared.get bucket then
    (c.get bucket).entries.filterMap fun (key, _) =>
      if ((w.entries.get bucket).get? key).isSome then none else some (.remove bucket key)
  else []

/-- The changes of the keys that the write set writes. -/
def writing (w : WriteSet) (bucket : Bucket) : List KeyChange :=
  (w.entries.get bucket).entries.map fun (key, value?) =>
    match value? with
    | some value => .insert bucket key value
    | none => .remove bucket key

/-- The batch of a write set: first the removals of emptied buckets, then the written keys. -/
def batch (w : WriteSet) (c : Contents) : List KeyChange :=
  Bucket.all.flatMap (clearing w c) ++ Bucket.all.flatMap (writing w)

/-- The contents after one change of a key. -/
def applyChange (c : Contents) : KeyChange → Contents
  | .insert bucket key value => c.perform (.put bucket key value)
  | .remove bucket key => c.perform (.delete bucket key)

/-- The contents after a batch. -/
def applyBatch (c : Contents) (changes : List KeyChange) : Contents := changes.foldl applyChange c

/-- The faults met while the buckets to be emptied are listed. -/
def listing (faults : Faults) (w : WriteSet) : Except StoreError Unit :=
  Bucket.all.forM fun bucket =>
    if w.cleared.get bucket then Faults.raise (faults.scan bucket .all .ascending) else .ok ()

/-- A commit: the buckets to be emptied are listed, the batch is applied, and with `syncWrites` it is
brought to the disk. -/
def commit (faults : Faults) (syncWrites : Bool) (w : WriteSet) (c : Contents) :
    Except StoreError Unit × Contents :=
  match listing faults w with
  | .error e => (.error e, c)
  | .ok () =>
    match faults.commit w with
    | some e => (.error e, c)
    | none =>
      let committed := applyBatch c (batch w c)
      if syncWrites then (Faults.raise faults.sync, committed) else (.ok (), committed)

end Durable

/-- Contents on a medium, with the faults of the moment. -/
structure Engine where
  medium : Medium
  contents : Contents
  faults : Faults := .never

namespace Engine

/-- A fresh engine. -/
def new (medium : Medium) : Engine := ⟨medium, .empty, .never⟩

/-- The value under a key, for a reading or a writing scope. -/
def get (s : Engine) (writing : Bool) (bucket : Bucket) (key : Bytes) :
    Except StoreError (Option Bytes) := do
  Faults.raise (s.faults.get writing bucket key)
  return s.contents.lookup bucket key

/-- The entries of a range in the order in which they are visited. -/
def scan (s : Engine) (bucket : Bucket) (range : KeyRange) (direction : Direction) :
    Except StoreError (List (Bytes × Bytes)) := do
  Faults.raise (s.faults.scan bucket range direction)
  return (s.contents.get bucket).entriesIn range direction

/-- Carries out a write set. -/
def commit (s : Engine) (w : WriteSet) : Except StoreError Unit × Engine :=
  match s.medium with
  | .memory =>
    match s.faults.commit w with
    | some e => (.error e, s)
    | none => (.ok (), { s with contents := Memory.commit w s.contents })
  | .durable syncWrites =>
    let (result, contents) := Durable.commit s.faults syncWrites w s.contents
    (result, { s with contents })

/-- Brings everything to the disk. -/
def close (s : Engine) : Except StoreError Unit :=
  match s.medium with
  | .memory => .ok ()
  | .durable _ => Faults.raise s.faults.sync

/-- The engine opened again: what was on disk is there unless it is to be cleared. -/
def reopen (s : Engine) (clear : Bool) : Engine :=
  match s.medium with
  | .memory => { s with contents := .empty }
  | .durable _ => if clear then { s with contents := .empty } else s

end Engine

end ChainIndex
