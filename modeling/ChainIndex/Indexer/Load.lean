import ChainIndex.Indexer.Error
import ChainIndex.Settings.Decode
import ChainIndex.Settings.Path

/-!
# Reading the configuration of the indexer

* `IndexerConfig.load` reads it from the `indexer` section of the settings, over
  `IndexerConfig.defaults`, and refuses one with a fault.
-/

namespace ChainIndex

/-- A hash as a setting: its hexadecimal form. -/
def Hash.ofSetting {size : Nat} : Setting.Decoder (Hash size) := fun s => do
  match Hash.parse (← s.string) with
  | .ok hash => return hash
  | .error e => throw (.unexpected e.message)

/-- A point as a setting; its number may be missing. -/
def Point.ofSetting : Setting.Decoder Point :=
  let word (s : Setting) : Except SettingError UInt64 := UInt64.ofNat <$> s.natural UInt64.size
  Setting.record [
    { key := "slot", read := fun p s => return { p with slot := ← word s } },
    { key := "hash", read := fun p s => return { p with hash := ← Hash.ofSetting s } },
    { key := "number", read := fun p s => return { p with number := ← word s }, mayLack := true }]
    .origin

namespace IndexerConfig

/-- The settings that hold where the user gives none. -/
def defaults : List (String × Setting) :=
  [("indexer", .table [
    ("confirmation-depth", .int 10),
    ("addresses-of-interest", .list []),
    ("address-check", .int 3),
    ("keep-all-tx-outputs-in-db", .bool false),
    ("keep-all-tx-hashes-in-block", .bool false),
    ("soft-delete-utxo", .bool false),
    ("queue-size", .int 64)])]

/-- Texts in order, each once. -/
def sorted (texts : List String) : List String :=
  (texts.mergeSort fun a b => !decide (b < a)).eraseReps

/-- The fields of the section. -/
def fields : List (Setting.Field IndexerConfig) := [
  { key := "starting-point"
    read := fun c s => return { c with startingPoint := ← s.optional Point.ofSetting }
    mayLack := true },
  { key := "confirmation-depth"
    read := fun c s => return { c with confirmationDepth := .ofNat (← s.natural UInt32.size) } },
  { key := "addresses-of-interest"
    read := fun c s => return { c with addressesOfInterest := sorted (← s.array Setting.string) }
    mayLack := true },
  { key := "address-check"
    read := fun c s => return { c with addressCheck := ⟨.ofNat (← s.natural UInt8.size)⟩ } },
  { key := "keep-all-tx-outputs-in-db"
    read := fun c s => return { c with keepAllOutputs := ← s.boolean } },
  { key := "keep-all-tx-hashes-in-block"
    read := fun c s => return { c with keepAllHashes := ← s.boolean } },
  { key := "soft-delete-utxo", read := fun c s => return { c with softDelete := ← s.boolean } },
  { key := "queue-size"
    read := fun c s => return { c with queueSize := .ofNat (← s.natural UInt64.size) } }]

/-- The configuration that a user's settings give. -/
def load (user : Settings) : Except IndexerError IndexerConfig :=
  let settings := Settings.ofLayers [defaults, user.entries]
  match Setting.record fields {} (settings.get "indexer") with
  | .error e => .error (.config (.unreadable e.message))
  | .ok config =>
    match config.fault? with
    | some fault => .error (.config fault)
    | none => .ok config

end IndexerConfig

end ChainIndex
