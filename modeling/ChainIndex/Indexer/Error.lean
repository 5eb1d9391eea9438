import ChainIndex.Indexer.Config
import ChainIndex.Storage.Error

/-!
# Errors of the indexer

* `IndexerError`: why an event was not applied. `IndexerError.message` is the text shown.
* `ErrorKind`: what can be done about an error; `IndexerError.isFatal` marks those after which no event
  can be applied any more.
-/

namespace ChainIndex

/-- Why an event was not applied. -/
inductive IndexerError where
  | store (cause : StoreError)
  /-- The transactions of a pending block could not be fetched. -/
  | fetch (point : Point) (reason : String)
  /-- The consumer refused a block that was confirmed already. -/
  | consumer (point : Point) (reason : String)
  /-- A header came to a full window. -/
  | windowOverflow (capacity : Nat)
  /-- The point to roll back to is neither pending nor the last confirmed one. -/
  | fatalRollback (point latest : Point)
  | config (fault : ConfigFault)
  | runnerClosed
deriving DecidableEq

/-- What an error means for those who drive the indexer. -/
inductive ErrorKind where
  /-- The same event may be tried again. -/
  | transient
  | windowOverflow
  | fatalRollback
  /-- The block is confirmed all the same. -/
  | consumer
  | configuration
  /-- What is stored cannot be trusted. -/
  | corruption
  | closed
deriving DecidableEq, Repr

/-- The name of a kind. -/
def ErrorKind.name : ErrorKind → String
  | transient => "Transient"
  | windowOverflow => "WindowOverflow"
  | fatalRollback => "FatalRollback"
  | consumer => "Consumer"
  | configuration => "Configuration"
  | corruption => "Corruption"
  | closed => "Closed"

/-- What a storage error means. -/
def StoreError.kind : StoreError → ErrorKind
  | .config _ => .configuration
  | .encode _ _ | .decode _ _ | .invalidKey _ _ | .bucketNotFound _ | .poisoned _ => .corruption
  | .backend _ | .io _ => .transient

namespace IndexerError

/-- The text shown for an error. -/
def message : IndexerError → String
  | store cause => "store error: " ++ cause.message
  | fetch point reason =>
    "cannot fetch transactions of block " ++ point.describe ++ ": " ++ reason
  | consumer point reason => "consumer failed on block " ++ point.describe ++ ": " ++ reason
  | windowOverflow capacity => "rollback window overflow: capacity " ++ toString capacity
  | fatalRollback point latest =>
    "cannot roll back to " ++ point.describe ++ ": latest confirmed is " ++ latest.describe
  | config fault => "configuration error: " ++ fault.message
  | runnerClosed => "runner is closed"

/-- What an error means. -/
def kind : IndexerError → ErrorKind
  | store cause => cause.kind
  | fetch _ _ => .transient
  | consumer _ _ => .consumer
  | windowOverflow _ => .windowOverflow
  | fatalRollback _ _ => .fatalRollback
  | config _ => .configuration
  | runnerClosed => .closed

/-- Whether no event can be applied after the error. -/
def isFatal (e : IndexerError) : Bool :=
  match e.kind with
  | .windowOverflow | .fatalRollback | .configuration | .corruption => true
  | .transient | .consumer | .closed => false

end IndexerError

end ChainIndex
