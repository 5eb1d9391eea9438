import ChainIndex.Fixture.Basic
import ChainIndex.Runner

/-!
# Trial surroundings of an indexer

* `Node`: blocks held in memory, some of which cannot be had for the moment.
* `Recorder`: a consumer that remembers what it was handed, and may refuse it.
* `Trial`: an indexer between the two, as a handler of events.
-/

namespace ChainIndex.Fixture

/-- Transactions by block. A block that was never given has none. -/
structure Node where
  blocks : List (BlockHash × List Tx) := []
  /-- The blocks that cannot be had. -/
  failing : List BlockHash := []

namespace Node

/-- Sets the transactions of a block. -/
def insert (n : Node) (hash : BlockHash) (txs : List Tx) : Node :=
  { n with blocks := (hash, txs) :: n.blocks }

/-- A block cannot be had until `recover`. -/
def failOn (n : Node) (hash : BlockHash) : Node := { n with failing := hash :: n.failing }

/-- A block can be had again. -/
def recover (n : Node) (hash : BlockHash) : Node :=
  { n with failing := n.failing.filter (· != hash) }

/-- Hands out the transactions of a block. -/
def source (n : Node) : BlockSource := fun header =>
  if n.failing.contains header.hash then
    .error ("node unavailable for block at slot " ++ toString header.slot)
  else .ok ((n.blocks.lookup header.hash).getD [])

end Node

/-- What a consumer was handed, in order, and whether it refuses. -/
structure Recorder where
  seen : List (ConfirmedBlock × List Tx) := []
  isFailing : Bool := false

/-- Remembers a block, and then refuses it if told so. -/
def Recorder.consumer : Consumer Recorder := fun block txs r db =>
  let result :=
    if r.isFailing then .error ("consumer rejected block at slot " ++ toString block.slot)
    else .ok ()
  (result, { r with seen := r.seen ++ [(block, txs)] }, db)

/-- An indexer between a node and a recorder. -/
structure Trial where
  indexer : Indexer
  node : Node := {}
  recorder : Recorder := {}

/-- Hands an event to the indexer. -/
def Trial.handle : Runner.Handler Trial := fun e t =>
  match e with
  | .rollForward header =>
    let (result, indexer, recorder) :=
      t.indexer.rollForward t.node.source Recorder.consumer header t.recorder
    (result, { t with indexer, recorder })
  | .rollBackward point =>
    let (result, indexer) := t.indexer.rollBackward point
    (result, { t with indexer })

/-- Resets the indexer. -/
def Trial.reset (t : Trial) : Except IndexerError Point × Trial :=
  let (result, indexer) := t.indexer.reset
  (result, { t with indexer })

end ChainIndex.Fixture
