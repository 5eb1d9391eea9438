import ChainIndex.Bytes.Basic
import ChainIndex.Storage.WriteSet
import ChainIndex.Storage.Error

/-!
# Files

* `Path.join`: a name inside a directory. `Path.extension`: what follows the last dot of the last name.
  `Path.sort`: paths in the order of their names, so that what lies in a directory stands together.
* `FileSystem m`: what can be asked of the files around a program, with the effects of `m`.
* `Host m`: a file system that also holds stores.
-/

/-! ## Paths -/

namespace ChainIndex.Path

/-- The directory that names without a root begin in. -/
def here : String := "."

/-- A text cut at every slash. -/
def cut : List Char → List (List Char)
  | [] => [[]]
  | c :: rest =>
    match cut rest with
    | [] => [[c]]
    | first :: others => if c = '/' then [] :: first :: others else (c :: first) :: others

/-- The names between the slashes of a path. -/
def names (path : String) : List String := (cut path.toList).map String.ofList

/-- The last name of a path. -/
def fileName (path : String) : String := (names path).getLast?.getD ""

/-- What follows the last dot of the last name; a dot in front does not count. -/
def extension (path : String) : String :=
  match (fileName path).toList with
  | [] => ""
  | _ :: rest =>
    if rest.contains '.' then String.ofList (rest.reverse.takeWhile (· ≠ '.')).reverse else ""

/-- Whether a path begins at the root. -/
def isAbsolute (path : String) : Bool := path.toList.head? = some '/'

/-- The parts of a path that count for its order: the root is first, then the current and the parent
directory, then names. -/
def parts (path : String) : List (Nat × String) :=
  let rank (name : String) : Nat × String := if name = ".." then (2, "") else (3, name)
  let all := names path
  let front := if isAbsolute path then [(0, "")] else if all.head? = some here then [(1, "")] else []
  front ++ (all.filter fun name => name ≠ "" ∧ name ≠ here).map rank

/-- Whether a path is the directory to begin in. -/
def isHere (path : String) : Bool := parts path = [(1, "")]

/-- A name inside a directory. An empty name only ends the directory with a slash. -/
def join (directory name : String) : String :=
  if isHere directory then name
  else if directory.toList.getLast? = some '/' then directory ++ name
  else directory ++ "/" ++ name

/-- Whether one list of parts stands before another or is the same. -/
def precedes : List (Nat × String) → List (Nat × String) → Bool
  | [], _ => true
  | _ :: _, [] => false
  | (m, a) :: as, (n, b) :: bs =>
    if m = n ∧ a = b then precedes as bs else decide (m < n) || (decide (m = n) && decide (a < b))

/-- Paths in the order of their parts. -/
def sort (paths : List String) : List String :=
  paths.mergeSort fun a b => precedes (parts a) (parts b)

end ChainIndex.Path

/-! ## File systems -/

namespace ChainIndex

/-- What stands at a path. -/
inductive FileKind where
  | file
  | directory
deriving DecidableEq, Repr

/-- What can be asked of the files around a program. -/
structure FileSystem (m : Type → Type) where
  kind? : (path : String) → m (Option FileKind)
  /-- The names in a directory, or why they cannot be had. -/
  list : (path : String) → m (Except String (List String))
  /-- The octets of a file, or why they cannot be had. -/
  read : (path : String) → m (Except String Bytes)

namespace FileSystem

variable {m : Type → Type} [Monad m]

/-- Whether anything stands at a path. -/
def contains (fs : FileSystem m) (path : String) : m Bool := do
  return (← fs.kind? path).isSome

/-- Whether a file stands at a path. -/
def isFile (fs : FileSystem m) (path : String) : m Bool := do
  return (← fs.kind? path) = some .file

/-- Whether a directory stands at a path. -/
def isDirectory (fs : FileSystem m) (path : String) : m Bool := do
  return (← fs.kind? path) = some .directory

end FileSystem

/-! ## Hosts -/

/-- A file system that also holds stores. -/
structure Host (m : Type → Type) extends FileSystem m where
  /-- The contents of the store at a path, which is made if it is missing; with `clear` it is emptied
  first. -/
  openStore : (path : String) → (clear : Bool) → m (Except StoreError Contents)
  /-- Keeps the contents of the store at a path. -/
  saveStore : (path : String) → Contents → m (Except StoreError Unit)

end ChainIndex
