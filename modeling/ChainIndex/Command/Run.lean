import ChainIndex.Bytes.Utf8
import ChainIndex.Command.Arguments
import ChainIndex.Files.System
import ChainIndex.Json.Printer
import ChainIndex.Ledger.Json
import ChainIndex.Replay.Basic
import ChainIndex.Settings.Source
import ChainIndex.Storage.Config

/-!
# Running a command

* `Settings.load`: the settings in some files, and over them those in the environment.
* `Command.perform`: what a command answers, and the database after it.
* `Command.run`: reads arguments, performs the command on the store that the settings name, and keeps what
  became of the store, also if the command fails.
-/

namespace ChainIndex

variable {m : Type → Type} [Monad m]

namespace Settings

/-- The file that a name stands for, with its format: the file itself, or else one with the extension of a
format added. -/
def find? (fs : FileSystem m) (name : String) : m (Option (String × SettingsFormat)) := do
  if ← fs.isFile name then
    return (SettingsFormat.ofExtension? (Path.extension name)).map fun format => (name, format)
  let named := SettingsFormat.all.map fun format => (name ++ "." ++ format.extension, format)
  return (← named.filterM fun (path, _) => fs.isFile path).head?

/-- Octets without the mark of the octet order in front. -/
def dropMark : Bytes → Bytes
  | 0xef :: 0xbb :: 0xbf :: rest => rest
  | bytes => bytes

/-- The layer of settings in a file. -/
def layer? (fs : FileSystem m) (name : String) : OptionT m SettingsLayer := do
  let (path, format) ← OptionT.mk (find? fs name)
  match ← fs.read path with
  | .ok bytes => OptionT.mk (pure (format.layer? (Utf8.decodeLossy (dropMark bytes))))
  | .error _ => failure

/-- The settings in some files, later ones over earlier ones, and over them those in the environment. -/
def load? (fs : FileSystem m) (files : List String) (environment : List (String × String)) :
    m (Option Settings) := do
  match ← (files.mapM (layer? fs)).run with
  | some layers => return some (ofLayers (layers ++ [Environment.layer environment]))
  | none => return none

end Settings

namespace Command

/-- What the program leaves when it ends. -/
structure Outcome where
  code : UInt8
  output : String := ""
  /-- What is said on the error stream. -/
  error : String := ""

/-- A value as it is shown. -/
def shown {α : Type} [ToJson α] (a : α) : String := (toJson a).pretty ++ "\n"

/-- The outcome of a query as it is shown. -/
def answer {α : Type} [ToJson α] (result : Except StoreError α) : Except String String :=
  match result with
  | .ok a => .ok (shown a)
  | .error e => .error e.message

/-- The latest point and some of the last blocks. -/
def statusOf (db : Database) (count : Nat) : Except StoreError Json := do
  let latest ← db.latestPoint?
  let blocks ← db.latestBlocks count
  return .obj [("latest_point", toJson latest), ("blocks", toJson blocks)]

/-- What a command answers, or the error shown; and the database after it. -/
def perform (fs : FileSystem m) (settings : Settings) (db : Database) :
    Command → m (Except String String × Database)
  | replay blocks => do
    match ← Replay.run fs settings blocks db with
    | (.ok (), db) => return (.ok "", db)
    | (.error e, db) => return (.error e.message, db)
  | status count => return (answer (statusOf db count), db)
  | utxos address onlyUnused =>
    return (answer (db.outputsAt address onlyUnused), db)
  | pending max => return (answer (db.unprocessedTxs max), db)
  | reseed =>
    match (BatchWriter.empty.push .deleteAllOutputs).execute db with
    | (.ok (), _, db) => return (.ok "", db)
    | (.error e, _, db) => return (.error e.message, db)

/-- Performs a command on the store of a configuration. -/
def performOn (host : Host m) (settings : Settings) (config : StoreConfig) (command : Command) :
    m (Except String String) := do
  let opening := "opening confirmed store"
  match config.backend with
  | .memory => return (← command.perform host.toFileSystem settings (.new .memory)).1
  | .fjall =>
    match ← host.openStore config.databasePath config.clearOnStart with
    | .error _ => return .error opening
    | .ok contents =>
      let fresh : Database := .new (.durable config.syncWrites)
      let db := { fresh with engine := { fresh.engine with contents } }
      let (result, db) ← command.perform host.toFileSystem settings db
      match ← host.saveStore config.databasePath db.engine.contents with
      | .ok () => return result
      | .error e => return .error e.message

/-- Performs a command with the settings of its files. -/
def execute (host : Host m) (environment : List (String × String)) (i : Invocation) :
    m (Except String String) := do
  match ← Settings.load? host.toFileSystem i.configFiles environment with
  | none => return .error "loading configuration"
  | some settings =>
    match StoreConfig.load settings with
    | .error _ => return .error "reading [store]"
    | .ok config => performOn host settings config i.command

/-- Runs the program. -/
def run (host : Host m) (args : List String) (environment : List (String × String)) : m Outcome := do
  match Invocation.parse args with
  | .error (.help text) => return { code := 0, output := text }
  | .error (.mistake text) => return { code := 2, error := "error: " ++ text }
  | .ok i =>
    match ← execute host environment i with
    | .ok output => return { code := 0, output }
    | .error message => return { code := 1, error := "Error: " ++ message }

end Command

end ChainIndex
