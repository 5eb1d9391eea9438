import ChainIndex.Ledger.Json
import ChainIndex.Json.Parser
import ChainIndex.Json.Printer
import ChainIndex.Fixture.Trial
import ChainIndex.Raw.Source
import ChainIndex.Storage.Config
import ChainIndex.Indexer.Load
import ChainIndex.Settings.Source
import ChainIndex.Main
import ChainIndex.Fixture.Files
import ChainIndex.Proofs.Indexer.Tracking
import ChainIndex.Proofs.Indexer.Retry
import ChainIndex.Proofs.Runner.Announced
import ChainIndex.Proofs.Indexer.Unspent
import ChainIndex.Proofs.Runner.Delivery
import ChainIndex.Proofs.Indexer.Restart
import ChainIndex.Proofs.Indexer.Followed
import ChainIndex.Proofs.Indexer.Spends
import ChainIndex.Proofs.Storage.Media
import ChainIndex.Proofs.Cbor.Records
import ChainIndex.Proofs.Cbor.Sizes
import ChainIndex.Proofs.Indexer.Notices
import ChainIndex.Proofs.Storage.Intact
import ChainIndex.Proofs.Indexer.Readable
import ChainIndex.Proofs.Storage.Blocks
import ChainIndex.Proofs.Indexer.Chain
import ChainIndex.Proofs.Indexer.Marked
import ChainIndex.Proofs.Indexer.Progress
import ChainIndex.Proofs.Indexer.Processing
import ChainIndex.Proofs.Indexer.Survivors
import ChainIndex.Proofs.Storage.Txs
import ChainIndex.Proofs.Runner.Reset
import ChainIndex.Proofs.Indexer.Specification
import ChainIndex.Proofs.Indexer.Undisturbed
import ChainIndex.Proofs.Indexer.Draining
import ChainIndex.Proofs.Runner.Unfailing
import ChainIndex.Proofs.Replay.Stored
import ChainIndex.Proofs.Replay.Announced
import ChainIndex.Proofs.Raw.References
import ChainIndex.Proofs.Raw.Decoding
import ChainIndex.Proofs.Replay.Resume
import ChainIndex.Proofs.Replay.Prefixes
import ChainIndex.Proofs.Storage.Transcript
import ChainIndex.Proofs.Storage.Queries
import ChainIndex.Proofs.Storage.Listing
import ChainIndex.Proofs.Indexer.Chained
import ChainIndex.Proofs.Storage.Cursor
import ChainIndex.Proofs.Indexer.Poisoned
import ChainIndex.Proofs.Storage.Synced
import ChainIndex.Proofs.Json.Records
