import ChainIndex.Settings.Basic

/-!
# Tables of TOML

* `Toml.Table`: a table under construction, whose parts remember how they came to be, because that
  decides what may still be added to them.
* `Table.assign` sets a value under a dotted key; `Table.openTable` and `Table.openElement` are the two
  kinds of headers; `Table.assignIn` sets a value in the table that a header opened. What was set once
  cannot be set again.
* `Table.toSettings` is the finished table.
-/

namespace ChainIndex.Toml

/-- How a table came to be. -/
inductive Origin where
  /-- By a header of its own. -/
  | header
  /-- By the header of a table inside it. -/
  | implied
  /-- By a dotted key. -/
  | dotted
deriving DecidableEq, Repr

/-- What stands under a key. -/
inductive Item where
  | value (s : Setting)
  | table (origin : Origin) (entries : List (String × Item))
  /-- The elements of an array of tables, last first. -/
  | elements (tables : List (List (String × Item)))

/-- A table under construction. -/
abbrev Table := List (String × Item)

namespace Table

/-- Sets what stands under a key. -/
def put (key : String) (item : Item) : Table → Table
  | [] => [(key, item)]
  | (k, old) :: rest => if k = key then (k, item) :: rest else (k, old) :: put key item rest

/-- Changes what stands at the end of a path of headers. Tables on the way are made if they are missing; of
an array of tables the last element is meant. -/
def alter (last : Option Item → Option Item) : List String → Table → Option Table
  | [], _ => none
  | [key], t => do return t.put key (← last (t.lookup key))
  | key :: next :: path, t => do
    match t.lookup key with
    | none => return t.put key (.table .implied (← alter last (next :: path) []))
    | some (.table origin entries) =>
      return t.put key (.table origin (← alter last (next :: path) entries))
    | some (.elements (entries :: done)) =>
      return t.put key (.elements ((← alter last (next :: path) entries) :: done))
    | some (.elements []) | some (.value _) => none

/-- Opens a table by its header. Only a table that was implied so far may be there already. -/
def openTable : List String → Table → Option Table :=
  alter fun
    | none => some (.table .header [])
    | some (.table .implied entries) => some (.table .header entries)
    | _ => none

/-- Opens the next element of an array of tables. -/
def openElement : List String → Table → Option Table :=
  alter fun
    | none => some (.elements [[]])
    | some (.elements tables) => some (.elements ([] :: tables))
    | _ => none

/-- Sets a value under a dotted key. The tables on the way may not have headers of their own, and the last
of them must come from dotted keys. -/
def assign : List String → Setting → Table → Option Table
  | [], _, _ => none
  | [key], s, t => if (t.lookup key).isNone then some (t.put key (.value s)) else none
  | key :: next :: path, s, t => do
    match t.lookup key with
    | none => return t.put key (.table .dotted (← assign (next :: path) s []))
    | some (.table .dotted entries) =>
      return t.put key (.table .dotted (← assign (next :: path) s entries))
    | some (.table .implied entries) =>
      if path.isEmpty then none
      return t.put key (.table .implied (← assign (next :: path) s entries))
    | some (.elements (entries :: done)) =>
      if path.isEmpty then none
      return t.put key (.elements ((← assign (next :: path) s entries) :: done))
    | _ => none

/-- Sets a value under a dotted key in the table that a header opened; no header means the whole. -/
def assignIn (header key : List String) (s : Setting) (t : Table) : Option Table :=
  if header.isEmpty then t.assign key s
  else
    t.alter (fun
      | some (.table origin entries) => do return .table origin (← assign key s entries)
      | some (.elements (entries :: done)) => do return .elements ((← assign key s entries) :: done)
      | _ => none) header

mutual

/-- A finished item. -/
def settingOf : Item → Setting
  | .value s => s
  | .table _ entries => .table (toSettings entries)
  | .elements tables => .list (settingsOf tables)

/-- A finished table. -/
def toSettings : Table → List (String × Setting)
  | [] => []
  | (key, item) :: rest => (key, settingOf item) :: toSettings rest

/-- The finished elements of an array of tables, first one first. -/
def settingsOf : List Table → List Setting
  | [] => []
  | entries :: done => settingsOf done ++ [.table (toSettings entries)]

end

end Table

end ChainIndex.Toml
