import ChainIndex.Settings.Decode
import ChainIndex.Settings.Path
import ChainIndex.Storage.Error

/-!
# Configuration of the store

* `StoreConfig`: on what the store is kept, and where. `StoreConfig.load` reads it from the `store`
  section of the settings, over `StoreConfig.defaults`.
-/

namespace ChainIndex

/-- On what a store is kept. -/
inductive StoreBackend where
  /-- On disk. -/
  | fjall
  /-- In memory, for as long as the program runs. -/
  | memory
deriving DecidableEq, Repr, Inhabited

/-- The name of a back end. -/
def StoreBackend.name : StoreBackend → String
  | fjall => "Fjall"
  | memory => "Memory"

/-- On what the store is kept, and where. -/
structure StoreConfig where
  backend : StoreBackend := .fjall
  databasePath : String := "watchtower-db"
  /-- Remove what is stored before the store is opened. -/
  clearOnStart : Bool := false
  /-- Wait for the disk on every commit. -/
  syncWrites : Bool := false
deriving DecidableEq, Repr, Inhabited

namespace StoreConfig

/-- The settings that hold where the user gives none. -/
def defaults : List (String × Setting) :=
  [("store", .table [
    ("backend", .text "fjall"),
    ("database-path", .text "watchtower-db"),
    ("clear-on-start", .bool false),
    ("sync-writes", .bool false)])]

/-- The fields of the section. -/
def fields : List (Setting.Field StoreConfig) := [
  { key := "backend"
    read := fun c s => do
      let backend ← Setting.choice [("fjall", StoreBackend.fjall), ("memory", .memory)] s
      return { c with backend } },
  { key := "database-path", read := fun c s => return { c with databasePath := ← Setting.string s } },
  { key := "clear-on-start", read := fun c s => return { c with clearOnStart := ← Setting.boolean s } },
  { key := "sync-writes", read := fun c s => return { c with syncWrites := ← Setting.boolean s } }]

/-- The configuration that a user's settings give. -/
def load (user : Settings) : Except StoreError StoreConfig :=
  let settings := Settings.ofLayers [defaults, user.entries]
  match Setting.record fields {} (settings.get "store") with
  | .ok config => .ok config
  | .error e => .error (.config e.message)

end StoreConfig

end ChainIndex
