import ChainIndex.Files.Glob
import ChainIndex.Indexer.Load
import ChainIndex.Raw.Source
import ChainIndex.Runner
import ChainIndex.Storage.Confirmed

/-!
# Replaying blocks

* `BlockFile`: a file that should hold a raw block. `Replay.load` reads the blocks of files.
* `Replay.headersAfter`: the headers that are still to be announced after a point.
* `Replay.index`: announces the blocks of files to an indexer over a store, from where the store ends.
* `Replay.run`: replays the blocks in all files of a pattern, in the order of their paths, with the
  configuration that settings give.
-/

namespace ChainIndex

/-- A file that should hold a raw block: its octets, or why they cannot be had. -/
structure BlockFile where
  path : String
  content : Except String Bytes

/-- Why a replay stopped. -/
inductive ReplayError where
  | config (cause : IndexerError)
  | badPattern (pattern : String)
  /-- The files that match the pattern cannot be listed. -/
  | listing (reason : String)
  | reading (path : String)
  | decoding (path : String)
  /-- The indexer cannot begin. -/
  | indexer (cause : IndexerError)
  /-- The indexer met an error after which it cannot go on. -/
  | aborted (cause : IndexerError)
deriving DecidableEq

namespace ReplayError

/-- The text shown for an error, without its cause. -/
def message : ReplayError → String
  | config _ => "reading [indexer]"
  | badPattern pattern => "bad block pattern " ++ pattern
  | listing reason => reason
  | reading path => "reading " ++ path
  | decoding path => "decoding " ++ path
  | indexer cause => cause.message
  | aborted _ => "replay aborted"

/-- The error of the indexer that an error comes from. -/
def cause? : ReplayError → Option IndexerError
  | config cause | indexer cause | aborted cause => some cause
  | badPattern _ | listing _ | reading _ | decoding _ => none

end ReplayError

namespace Replay

/-- Marks the transactions of each confirmed block as processed. -/
def markingConsumer : Consumer Unit := fun _ txs _ db =>
  match db.markProcessed txs with
  | (.ok (), db) => (.ok (), (), db)
  | (.error e, db) => (.error e.message, (), db)

/-- Hands an event to an indexer whose blocks come from a source. -/
def handle (source : BlockSource) : Runner.Handler Indexer := fun e s =>
  match e with
  | .rollForward header =>
    let (result, s, _) := s.rollForward source markingConsumer header ()
    (result, s)
  | .rollBackward point => s.rollBackward point

/-- The headers that are still ahead of a point, in order: all of them for the origin, else those with a
later slot. -/
def headersAfter (headers : List BlockHeader) (start : Point) : List BlockHeader :=
  if start.isOrigin then headers else headers.filter fun header => start.slot < header.slot

/-- Reads the blocks of files: a store of them all, and their headers in order. -/
def load : List BlockFile → BlockStore → Except ReplayError (BlockStore × List BlockHeader)
  | [], blocks => .ok (blocks, [])
  | file :: files, blocks =>
    match file.content with
    | .error _ => .error (.reading file.path)
    | .ok raw =>
      match RawBlock.decodeHeader raw with
      | .error _ => .error (.decoding file.path)
      | .ok header => do
        let (blocks, headers) ← load files (blocks.insert header.hash raw)
        return (blocks, header :: headers)

/-- Announces headers one after the other, as long as the runner takes them. -/
def announce (handler : Runner.Handler Indexer) :
    List BlockHeader → Runner Indexer → Runner Indexer
  | [], r => r
  | header :: headers, r =>
    match r.send handler (.event (.rollForward header)) with
    | (.accepted, r) => announce handler headers r
    | (_, r) => r

/-- Lets an indexer that has been reset follow headers to their end. The first fatal error is the outcome. -/
def follow (s : Indexer) (source : BlockSource) (headers : List BlockHeader) :
    Except ReplayError Unit × Database :=
  let handler := handle source
  let r := announce handler headers (Runner.new s s.config.queueSize.toNat).start
  let r := (r.sync handler).2.close handler
  match r.errors.find? IndexerError.isFatal with
  | some e => (.error (.aborted e), r.handler.database)
  | none => (.ok (), r.handler.database)

/-- Announces the blocks of files to an indexer over a store, from where the store ends. -/
def index (config : IndexerConfig) (files : List BlockFile) (db : Database) :
    Except ReplayError Unit × Database :=
  match load files .empty with
  | .error e => (.error e, db)
  | .ok (blocks, headers) =>
    match Indexer.new config db with
    | .error e => (.error (.indexer e), db)
    | .ok s =>
      match s.reset with
      | (.error e, s) => (.error (.indexer e), s.database)
      | (.ok start, s) => follow s blocks.source (headersAfter headers start)

/-! ## Files of a pattern -/

variable {m : Type → Type} [Monad m]

/-- The files at some paths. -/
def readFiles (fs : FileSystem m) (paths : List String) : m (List BlockFile) :=
  paths.mapM fun path => return ⟨path, ← fs.read path⟩

/-- Replays the blocks in all files of a pattern. -/
def run (fs : FileSystem m) (settings : Settings) (pattern : String) (db : Database) :
    m (Except ReplayError Unit × Database) := do
  match IndexerConfig.load settings with
  | .error e => return (.error (.config e), db)
  | .ok config =>
    match Glob.parse? pattern with
    | none => return (.error (.badPattern pattern), db)
    | some glob =>
      match ← (glob.expand fs).run with
      | .error reason => return (.error (.listing reason), db)
      | .ok paths => return index config (← readFiles fs paths) db

end Replay

end ChainIndex
