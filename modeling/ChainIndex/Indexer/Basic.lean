import ChainIndex.Indexer.Confirmation
import ChainIndex.Indexer.Error
import ChainIndex.Indexer.Window
import ChainIndex.Storage.Confirmed

/-!
# The indexer

* `Indexer`: follows the chain by its headers. New headers wait in a window; a header that finds the
  window full confirms the oldest one, whose block is then fetched and recorded.
* `rollForward` and `rollBackward` are the two events of the chain, `reset` picks the point to go on
  from.

The transactions of a block come from a `BlockSource`, and confirmed blocks go to a `Consumer`. Until the
block is committed, an error leaves the window and the latest point as they were, so that the event can
be repeated; an error of the consumer comes after everything else is done.
-/

namespace ChainIndex

/-- Where the transactions of a block come from, with their inputs not looked up; or why they cannot be
had. -/
abbrev BlockSource := BlockHeader → Except String (List Tx)

/-- What is done with a confirmed block and its followed transactions. A consumer has a state of its own
and may change the store. -/
abbrev Consumer (κ : Type) :=
  ConfirmedBlock → List Tx → κ → Database → Except String Unit × κ × Database

/-- The state of the indexer. -/
structure Indexer where
  config : IndexerConfig
  database : Database
  writer : BatchWriter := .empty
  /-- Headers that wait for their confirmation. -/
  window : Window BlockHeader
  /-- The point of the block that was confirmed last. -/
  latestPoint : Point := .origin

namespace Indexer

variable {κ : Type}

/-- A new indexer over a store, unless the configuration is at fault. -/
def new (config : IndexerConfig) (database : Database) : Except IndexerError Indexer :=
  match config.fault? with
  | some fault => .error (.config fault)
  | none => .ok { config, database, window := .empty config.confirmationDepth.toNat }

/-- The headers that wait, oldest first. -/
def pending (s : Indexer) : List BlockHeader := s.window.entries

/-- Lets a header wait. -/
def push (s : Indexer) (header : BlockHeader) : Except IndexerError Unit × Indexer :=
  match s.window.push? header with
  | some window => (.ok (), { s with window })
  | none => (.error (.windowOverflow s.window.capacity), s)

/-- Records what a block contributes. -/
def confirm (s : Indexer) (header : BlockHeader) (txs : List Tx) :
    Except IndexerError Confirmation × Indexer :=
  match resolveInputs s.database.txOutput txs with
  | .error e => (.error (.store e), s)
  | .ok txs =>
    let confirmation := Confirmation.ofBlock s.config header txs
    let writer := (confirmation.ops s.config.softDelete).foldl BatchWriter.push s.writer
    match writer.execute s.database with
    | (.error e, writer, database) => (.error (.store e), { s with writer, database })
    | (.ok (), writer, database) =>
      (.ok confirmation, { s with writer, database, latestPoint := header.point })

/-- A header was announced. -/
def rollForward (s : Indexer) (source : BlockSource) (consumer : Consumer κ) (header : BlockHeader)
    (k : κ) : Except IndexerError Unit × Indexer × κ :=
  if !s.window.isFull then
    let (result, s) := s.push header
    (result, s, k)
  else
    match s.window.peek? with
    | none => (.error (.windowOverflow s.window.capacity), s, k)
    | some oldest =>
      match source oldest with
      | .error reason => (.error (.fetch oldest.point reason), s, k)
      | .ok txs =>
        match s.confirm oldest txs with
        | (.error e, s) => (.error e, s, k)
        | (.ok confirmation, s) =>
          match { s with window := s.window.pop }.push header with
          | (.error e, s) => (.error e, s, k)
          | (.ok (), s) =>
            let (result, k, database) := consumer confirmation.block confirmation.txs k s.database
            let s := { s with database }
            match result with
            | .ok () => (.ok (), s, k)
            | .error reason => (.error (.consumer confirmation.block.point reason), s, k)

/-- The chain goes back to a point. -/
def rollBackward (s : Indexer) (point : Point) : Except IndexerError Unit × Indexer :=
  match s.window.find? fun header => header.point.sameBlock point with
  | some index => (.ok (), { s with window := s.window.truncate (index + 1) })
  | none =>
    if point.sameBlock s.latestPoint then (.ok (), { s with window := s.window.clear })
    else (.error (.fatalRollback point s.latestPoint), s)

/-- Picks the point to go on from: the last confirmed one, else the configured one, else the origin. No
header waits after that. -/
def reset (s : Indexer) : Except IndexerError Point × Indexer :=
  match s.database.latestPoint? with
  | .error e => (.error (.store e), s)
  | .ok stored =>
    let point := stored.getD (s.config.startingPoint.getD .origin)
    (.ok point, { s with latestPoint := point, window := s.window.clear })

end Indexer

end ChainIndex
