/-!
# Buckets

* `Bucket`: the five independent key spaces of the store, each with a name.
* `Buckets α`: one `α` for each bucket, with `get`, `set` and `map`.
-/

namespace ChainIndex

/-- A key space of the store. -/
inductive Bucket where
  | utxos | latestPoint | unprocessedTxs | processedTxs | confirmedBlocks
deriving DecidableEq, Repr

namespace Bucket

/-- Every bucket, in their order. -/
def all : List Bucket := [utxos, latestPoint, unprocessedTxs, processedTxs, confirmedBlocks]

/-- The name of a bucket. -/
def name : Bucket → String
  | utxos => "utxos"
  | latestPoint => "latest_point"
  | unprocessedTxs => "unprocessed_txs"
  | processedTxs => "processed_txs"
  | confirmedBlocks => "confirmed_blocks"

/-- The bucket of a name. -/
def ofName? (name : String) : Option Bucket := all.find? (·.name == name)

theorem mem_all (b : Bucket) : b ∈ all := by cases b <;> decide

end Bucket

/-- One value for each bucket. -/
structure Buckets (α : Type) where
  utxos : α
  latestPoint : α
  unprocessedTxs : α
  processedTxs : α
  confirmedBlocks : α
deriving DecidableEq

namespace Buckets

variable {α β : Type}

/-- The same value for every bucket. -/
def all (a : α) : Buckets α := ⟨a, a, a, a, a⟩

/-- The value of a bucket. -/
def get (s : Buckets α) : Bucket → α
  | .utxos => s.utxos
  | .latestPoint => s.latestPoint
  | .unprocessedTxs => s.unprocessedTxs
  | .processedTxs => s.processedTxs
  | .confirmedBlocks => s.confirmedBlocks

/-- The values with that of one bucket replaced. -/
def set (s : Buckets α) (bucket : Bucket) (a : α) : Buckets α :=
  match bucket with
  | .utxos => { s with utxos := a }
  | .latestPoint => { s with latestPoint := a }
  | .unprocessedTxs => { s with unprocessedTxs := a }
  | .processedTxs => { s with processedTxs := a }
  | .confirmedBlocks => { s with confirmedBlocks := a }

/-- The values made from the bucket and its value. -/
def mapWith (f : Bucket → α → β) (s : Buckets α) : Buckets β :=
  ⟨f .utxos s.utxos, f .latestPoint s.latestPoint, f .unprocessedTxs s.unprocessedTxs,
    f .processedTxs s.processedTxs, f .confirmedBlocks s.confirmedBlocks⟩

@[simp] theorem get_all (a : α) (b : Bucket) : (all a).get b = a := by cases b <;> rfl

theorem get_set (s : Buckets α) (b c : Bucket) (a : α) :
    (s.set b a).get c = if c = b then a else s.get c := by
  cases b <;> cases c <;> rfl

@[simp] theorem get_mapWith (f : Bucket → α → β) (s : Buckets α) (b : Bucket) :
    (s.mapWith f).get b = f b (s.get b) := by cases b <;> rfl

/-- Values that agree in every bucket are equal. -/
theorem ext_get {s t : Buckets α} (h : ∀ b, s.get b = t.get b) : s = t := by
  cases s; cases t
  simp only [mk.injEq]
  exact ⟨h .utxos, h .latestPoint, h .unprocessedTxs, h .processedTxs, h .confirmedBlocks⟩

end Buckets

end ChainIndex
