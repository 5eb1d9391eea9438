import ChainIndex.Storage.Scope

/-!
# Cursors

* `Cursor`: a place in one bucket, remembered as the key of the entry that was found last.
* `first`, `last`, `next`, `prev` and `seek` find an entry and move there; a move that finds nothing
  leaves the cursor where it was. From no place, `next` is `first` and `prev` is `last`.
-/

namespace ChainIndex

/-- A place in a bucket. -/
structure Cursor where
  bucket : Bucket
  position : Option Bytes := none
deriving DecidableEq

namespace Cursor

variable {ε : Type} [ScopeError ε]

/-- Moves to the first entry of a range. -/
def step (cursor : Cursor) (range : KeyRange) (direction : Direction) :
    View ε (Option Entry × Cursor) := do
  let found ← View.scan cursor.bucket range direction none fun _ entry => .ok (some entry, false)
  match found with
  | some (key, value) => return (some (key, value), { cursor with position := some key })
  | none => return (none, cursor)

/-- Moves to the entry with the smallest key. -/
def first (cursor : Cursor) : View ε (Option Entry × Cursor) := cursor.step .all .ascending

/-- Moves to the entry with the largest key. -/
def last (cursor : Cursor) : View ε (Option Entry × Cursor) := cursor.step .all .descending

/-- The entry behind the current one. -/
def next (cursor : Cursor) : View ε (Option Entry × Cursor) :=
  match cursor.position with
  | some key => cursor.step (.above key) .ascending
  | none => cursor.first

/-- The entry before the current one. -/
def prev (cursor : Cursor) : View ε (Option Entry × Cursor) :=
  match cursor.position with
  | some key => cursor.step (.below key) .descending
  | none => cursor.last

/-- The first entry from a key on. -/
def seek (cursor : Cursor) (key : Bytes) : View ε (Option Entry × Cursor) :=
  cursor.step (.atLeast key) .ascending

end Cursor

end ChainIndex
