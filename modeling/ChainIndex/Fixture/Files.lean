import ChainIndex.Files.System

/-!
# Files in memory

* `Disk`: files and stores by their full paths. A directory is there as long as something lies in it.
* `Disk.host`: what a program that runs on a disk sees of it.
-/

namespace ChainIndex.Fixture

/-- Files and stores by their full paths, and where the program runs. -/
structure Disk where
  /-- The directory in which paths without a root begin. -/
  home : List String := []
  files : List (List String × Bytes) := []
  stores : List (List String × Contents) := []

namespace Disk

/-- Goes up or down by names. -/
def walk : List String → List String → List String
  | place, [] => place
  | place, name :: rest =>
    if name = "" ∨ name = "." then walk place rest
    else if name = ".." then walk place.dropLast rest
    else walk (place ++ [name]) rest

/-- The full path that a path stands for. -/
def resolve (d : Disk) (path : String) : List String :=
  walk (if Path.isAbsolute path then [] else d.home) (Path.names path)

/-- Everything on the disk, by full path. -/
def paths (d : Disk) : List (List String) := d.files.map (·.1) ++ d.stores.map (·.1)

/-- What stands at a path. A path that ends in a slash can only be a directory. -/
def kind? (d : Disk) (path : String) : Option FileKind :=
  let place := d.resolve path
  if path = "" then none
  else if (d.files.lookup place).isSome then
    if (Path.fileName path).isEmpty then none else some .file
  else if place = d.home ∨ d.paths.any place.isPrefixOf then some .directory
  else none

/-- The names in a directory, each once. -/
def list (d : Disk) (path : String) : List String :=
  let place := d.resolve path
  let inside := d.paths.filter fun p => place.isPrefixOf p
  (inside.filterMap fun p => (p.drop place.length).head?).eraseDups

/-- The octets of a file. -/
def read (d : Disk) (path : String) : Except String Bytes :=
  match d.files.lookup (d.resolve path), d.kind? path with
  | some bytes, some .file => .ok bytes
  | _, some _ => .error "is a directory"
  | _, none => .error "not found"

/-- Writes a file. -/
def write (d : Disk) (path : String) (bytes : Bytes) : Disk :=
  let place := d.resolve path
  { d with files := (place, bytes) :: d.files.filter (·.1 ≠ place) }

/-- Whether a file stands in the way of a directory at a full path. -/
def isBlocked (d : Disk) (place : List String) : Bool :=
  d.files.any fun (p, _) => p.isPrefixOf place

/-- Removes everything at and below a full path. -/
def remove (d : Disk) (place : List String) : Disk :=
  { d with
    files := d.files.filter fun (p, _) => !place.isPrefixOf p
    stores := d.stores.filter fun (p, _) => !place.isPrefixOf p }

/-- The contents of the store at a full path; a new store is empty. -/
def contents (d : Disk) (place : List String) : Contents := (d.stores.lookup place).getD .empty

/-- Keeps the contents of a store. -/
def keep (d : Disk) (place : List String) (c : Contents) : Disk :=
  { d with stores := (place, c) :: d.stores.filter (·.1 ≠ place) }

/-- Opens the store at a path. -/
def openStore (d : Disk) (path : String) (clear : Bool) : Except StoreError Contents × Disk :=
  let place := d.resolve path
  if d.isBlocked place then (.error (.io "not a directory"), d)
  else
    let d := if clear then d.remove place else d
    let c := d.contents place
    (.ok c, d.keep place c)

/-- What a program that runs on a disk sees of it. -/
def host : Host (StateM Disk) where
  kind? path := return (← get).kind? path
  list path := return .ok ((← get).list path)
  read path := return (← get).read path
  openStore path clear := modifyGet fun d => d.openStore path clear
  saveStore path c := do
    modify fun d => d.keep (d.resolve path) c
    return .ok ()

end Disk

end ChainIndex.Fixture
