import ChainIndex.Json.Basic

/-!
# Settings

* `Setting`: a value that a user may set, or a table of settings.
* `Setting.overlay` lays one setting over another: tables are joined key by key, anything else is
  replaced.
* `Setting.ofJson` reads a JSON value as a setting.
-/

namespace ChainIndex

/-- A value that a user may set. -/
inductive Setting where
  | null
  | bool (b : Bool)
  | int (i : Int)
  | float (f : Float)
  | text (s : String)
  | list (items : List Setting)
  /-- Settings under their keys; each key occurs once. -/
  | table (entries : List (String × Setting))
deriving Inhabited

namespace Setting

/-- The entries of a table; anything else has none. -/
def entries : Setting → List (String × Setting)
  | table entries => entries
  | _ => []

/-- The items of a list; anything else has none. -/
def items : Setting → List Setting
  | list items => items
  | _ => []

/-- Changes the setting under a key, which begins as null where it is missing. -/
def adjust (key : String) (f : Setting → Setting) :
    List (String × Setting) → List (String × Setting)
  | [] => [(key, f null)]
  | (k, s) :: rest => if k = key then (k, f s) :: rest else (k, s) :: adjust key f rest

mutual

/-- A setting laid over another one. -/
def overlay (base : Setting) : Setting → Setting
  | table entries => table (overlayEntries base.entries entries)
  | s => s

/-- The entries of a table laid over those of another one. -/
def overlayEntries (base : List (String × Setting)) :
    List (String × Setting) → List (String × Setting)
  | [] => base
  | (key, s) :: rest => overlayEntries (adjust key (fun old => overlay old s) base) rest

end

mutual

/-- A JSON value as a setting. -/
def ofJson : Json → Setting
  | .null => null
  | .bool b => bool b
  | .int i => int i
  | .float f => float f
  | .str s => text s
  | .arr items => list (ofItems items)
  | .obj fields => table (ofFields fields)

/-- The items of a JSON array as settings. -/
def ofItems : List Json → List Setting
  | [] => []
  | item :: rest => ofJson item :: ofItems rest

/-- The fields of a JSON object as settings. -/
def ofFields : List (String × Json) → List (String × Setting)
  | [] => []
  | (name, value) :: rest => (name, ofJson value) :: ofFields rest

end

end Setting

end ChainIndex
