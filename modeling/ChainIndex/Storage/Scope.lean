import ChainIndex.Cbor.Record
import ChainIndex.Storage.Engine

/-!
# Scopes

* `Database`: an engine behind a lock. `Database.view` runs a reading scope, `Database.update` one that
  also writes; its writes are pending until it ends, and then committed as a whole.
* Nothing is written when the scope fails.
* A scope can also stop in the middle without an answer (`Interrupt.panicked`). If it held the lock for
  writing, the lock is poisoned: every later scope fails. A reading scope leaves no trace.
* `readRecord`: the record that a stored value holds, or the error that says which type it should have
  been; `View.record` and `Update.record` do so inside a scope.

The bodies of scopes are `View` and `Update` programs. They stop with errors of any type that has a
`ScopeError` instance: `StoreError` for bodies that cannot panic, `Interrupt` for those that can.
-/

namespace ChainIndex

/-- Errors with which the body of a scope can stop. -/
class ScopeError (ε : Type) where
  ofStore : StoreError → ε
  /-- Whether the scope was left without an answer. -/
  isPanic : ε → Bool

instance : ScopeError StoreError := ⟨id, fun _ => false⟩

/-- How a scope can stop early. -/
inductive Interrupt where
  | failed (e : StoreError)
  | panicked
deriving DecidableEq

instance : ScopeError Interrupt where
  ofStore := .failed
  isPanic
    | .failed _ => false
    | .panicked => true

/-- A storage result with its error in another type. -/
def liftStore {ε α : Type} [ScopeError ε] : Except StoreError α → Except ε α
  | .ok a => .ok a
  | .error e => .error (ScopeError.ofStore e)

/-- The body of a reading scope. -/
abbrev View (ε α : Type) := ReaderT Engine (Except ε) α

/-- The body of a writing scope: it reads the engine and collects writes. -/
abbrev Update (ε α : Type) := ReaderT Engine (StateT WriteSet (Except ε)) α

/-- An entry of a bucket. -/
abbrev Entry := Bytes × Bytes

namespace View

variable {ε : Type} [ScopeError ε]

/-- The value under a key. -/
def get (bucket : Bucket) (key : Bytes) : View ε (Option Bytes) := fun engine =>
  liftStore (engine.get false bucket key)

/-- Visits entries as long as the visitor asks for more; the visitor answers the new state and whether
to go on. -/
def visit {σ : Type} (visitor : σ → Entry → Except ε (σ × Bool)) : σ → List Entry → Except ε σ
  | s, [] => .ok s
  | s, e :: rest => do
    let (s, more) ← visitor s e
    if more then visit visitor s rest else return s

/-- Visits the entries of a range. -/
def scan {σ : Type} (bucket : Bucket) (range : KeyRange) (direction : Direction) (init : σ)
    (visitor : σ → Entry → Except ε (σ × Bool)) : View ε σ := fun engine => do
  visit visitor init (← liftStore (engine.scan bucket range direction))

/-- Every entry of a bucket, in the order of the keys. -/
def entries (bucket : Bucket) : View ε (List Entry) := do
  let reversed ← scan bucket .all .ascending [] fun seen e => .ok (e :: seen, true)
  return reversed.reverse

end View

namespace Update

variable {ε : Type} [ScopeError ε]

/-- The value under a key, as the writes of the scope leave it. -/
def get (bucket : Bucket) (key : Bytes) : Update ε (Option Bytes) := fun engine writes =>
  match writes.lookup bucket key with
  | .value bytes => .ok (some bytes, writes)
  | .deleted => .ok (none, writes)
  | .untouched => return (← liftStore (engine.get true bucket key), writes)

/-- One more write. -/
def write (w : Write) : Update ε Unit := fun _ writes => .ok ((), writes.add w)

/-- Sets the value of a key. -/
def put (bucket : Bucket) (key value : Bytes) : Update ε Unit := write (.put bucket key value)

/-- Removes a key. -/
def delete (bucket : Bucket) (key : Bytes) : Update ε Unit := write (.delete bucket key)

/-- Removes every entry of a bucket. -/
def clear (bucket : Bucket) : Update ε Unit := write (.clear bucket)

end Update

/-- An engine behind a lock. -/
structure Database where
  engine : Engine
  isPoisoned : Bool := false

namespace Database

variable {ε α : Type} [ScopeError ε]

/-- A fresh database on a medium. -/
def new (medium : Medium) : Database := { engine := .new medium }

/-- What the store holds. -/
def contents (db : Database) : Contents := db.engine.contents

/-- The error of every scope once the lock is poisoned. -/
def poisonedError : StoreError := .poisoned "database scope"

/-- Runs a reading scope. -/
def view (db : Database) (body : View ε α) : Except ε α :=
  if db.isPoisoned then .error (ScopeError.ofStore poisonedError) else body db.engine

/-- Runs a writing scope and commits its writes, if there are any. -/
def update (db : Database) (body : Update ε α) : Except ε α × Database :=
  if db.isPoisoned then (.error (ScopeError.ofStore poisonedError), db)
  else
    match body db.engine .empty with
    | .error e => (.error e, { db with isPoisoned := ScopeError.isPanic e })
    | .ok (a, writes) =>
      if writes.isEmpty then (.ok a, db)
      else
        match db.engine.commit writes with
        | (.ok (), engine) => (.ok a, { db with engine })
        | (.error e, engine) => (.error (ScopeError.ofStore e), { db with engine })

/-- Brings everything to the disk. -/
def close (db : Database) : Except StoreError Unit :=
  if db.isPoisoned then .error poisonedError else db.engine.close

/-- The database opened again, with a fresh lock. -/
def reopen (db : Database) (clear : Bool) : Database := { engine := db.engine.reopen clear }

end Database

/-! ## Records -/

variable {ε α : Type} [ScopeError ε] [Cbor.Record α]

/-- The record that a stored value holds. -/
def readRecord (bytes : Bytes) : Except ε α :=
  match Cbor.Record.decode bytes with
  | .ok a => .ok a
  | .error cause => .error (ScopeError.ofStore (.decode (Cbor.Record.name α) cause))

/-- The record that a stored value holds, inside a reading scope. -/
def View.record (bytes : Bytes) : View ε α := fun _ => readRecord bytes

/-- The record that a stored value holds, inside a writing scope. -/
def Update.record (bytes : Bytes) : Update ε α := fun _ writes =>
  return (← readRecord bytes, writes)

end ChainIndex
