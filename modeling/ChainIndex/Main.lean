import ChainIndex.Command.Run
import ChainIndex.Storage.Snapshot

/-!
# The program

* `diskHost`: the files and stores of the machine. A store is a directory with one file, which is replaced
  as a whole.
* `main` runs a command with the arguments and the variables of the process.
-/

namespace ChainIndex

/-- The file of a store that holds its contents. -/
def snapshotName : String := "contents.cbor"

/-- An action with its failure as a text. -/
def attempt {α : Type} (action : IO α) : IO (Except String α) := do
  match ← action.toBaseIO with
  | .ok a => return .ok a
  | .error e => return .error (toString e)

/-- A storage action with its failure as a storage error. -/
def attemptStore {α : Type} (action : IO α) : IO (Except StoreError α) := do
  return (← attempt action).mapError .io

/-- The contents of the store in a directory, which is made if it is missing. -/
def openDirectory (path : String) (clear : Bool) : IO Contents := do
  let directory := System.mkFilePath [path]
  if clear && (← directory.pathExists) then IO.FS.removeDirAll directory
  IO.FS.createDirAll directory
  let file := directory / snapshotName
  if ← file.pathExists then
    match Contents.decode (← IO.FS.readBinFile file).toList with
    | .ok contents => return contents
    | .error e => throw (IO.userError e.describe)
  else return .empty

/-- Replaces the contents of the store in a directory. -/
def saveDirectory (path : String) (contents : Contents) : IO Unit := do
  let directory := System.mkFilePath [path]
  let fresh := directory / (snapshotName ++ ".new")
  IO.FS.writeBinFile fresh (ByteArray.mk contents.encode.toArray)
  IO.FS.rename fresh (directory / snapshotName)

/-- The files and stores of the machine. -/
def diskHost : Host IO where
  kind? path := do
    let file := System.mkFilePath [path]
    if ← file.isDir then return some .directory
    else if ← file.pathExists then return some .file
    else return none
  list path := attempt do
    return (← (System.mkFilePath [path]).readDir).toList.map fun entry => entry.fileName
  read path := attempt do return (← IO.FS.readBinFile (System.mkFilePath [path])).toList
  openStore path clear := attemptStore (openDirectory path clear)
  saveStore path contents := attemptStore (saveDirectory path contents)

/-- The name and the value in an entry of an environment. -/
def variableOf (entry : Bytes) : String × String :=
  let name := entry.takeWhile (· ≠ 61)
  (Utf8.decodeLossy name, Utf8.decodeLossy (entry.drop (name.length + 1)))

/-- The entries of an environment, each of which ends with a zero octet. -/
def entriesOf (octets : Bytes) : List Bytes :=
  let (entries, last) := octets.foldr (fun octet (entries, entry) =>
    if octet = 0 then (entry :: entries, []) else (entries, octet :: entry)) ([], [])
  last :: entries

/-- The variables of the process, as the system lists them. -/
def processVariables : IO (List (String × String)) := do
  match ← attempt (IO.FS.readBinFile "/proc/self/environ") with
  | .ok octets => return (entriesOf octets.toList).map variableOf
  | .error _ => return []

end ChainIndex

/-- Runs a command of the program. -/
def main (args : List String) : IO UInt32 := do
  let outcome ← ChainIndex.Command.run ChainIndex.diskHost args (← ChainIndex.processVariables)
  IO.print outcome.output
  if outcome.error ≠ "" then IO.eprintln outcome.error
  return outcome.code.toUInt32
