import ChainIndex.Settings.Basic
import ChainIndex.Text

/-!
# Settings by path

* `SettingPath`: where a setting stands: a key at the top and steps down from there, written
  `store.backend` or `nodes[0].name`.
* `Settings`: all settings. `Settings.set` puts one at the path that a key spells, and `Settings.add`
  lays a whole layer of them over those before.
-/

namespace ChainIndex

/-- A step down from a setting. -/
inductive SettingStep where
  | key (name : String)
  /-- An item of a list; a negative index counts from the end. -/
  | index (i : Int)
deriving DecidableEq, Repr

/-- Where a setting stands. -/
structure SettingPath where
  root : String
  steps : List SettingStep := []
deriving DecidableEq, Repr

namespace SettingPath

/-- The characters of names in a path. -/
def isNameChar (c : Char) : Bool := c.isAlphanum || c == '_' || c == '-'

/-- Whether a character is a blank inside brackets. -/
def isBlank (c : Char) : Bool := c == ' ' || c == '\t'

/-- The name in front of a text, which must not be empty. -/
def name? (text : List Char) : Option (String × List Char) :=
  match text.takeWhile isNameChar with
  | [] => none
  | name => some (String.ofList name, text.dropWhile isNameChar)

/-- The index behind an opening bracket, up to and with the closing one. -/
def index? (text : List Char) : Option (Int × List Char) :=
  let text := text.dropWhile isBlank
  let (negative, text) := match text with
    | '-' :: rest => (true, rest)
    | _ => (false, text)
  let digits := text.takeWhile Char.isDigit
  let n := Text.ofDigits digits
  if digits.isEmpty ∨ 0x8000000000000000 ≤ n then none
  else
    match (text.dropWhile Char.isDigit).dropWhile isBlank with
    | ']' :: rest => some (if negative then -(n : Int) else n, rest)
    | _ => none

/-- The steps that a text spells, at most `fuel` of them. -/
def steps? : (fuel : Nat) → List Char → Option (List SettingStep)
  | _, [] => some []
  | 0, _ => none
  | fuel + 1, '.' :: rest => do
    let (name, rest) ← name? rest
    return .key name :: (← steps? fuel rest)
  | fuel + 1, '[' :: rest => do
    let (i, rest) ← index? rest
    return .index i :: (← steps? fuel rest)
  | _, _ => none

/-- The path that a text spells. -/
def parse? (text : String) : Option SettingPath := do
  let (root, rest) ← name? text.toList
  return ⟨root, ← steps? rest.length rest⟩

/-- Changes an item of a list. Missing items in between become null: behind the end for an index, in front
for one that counts from the end. -/
def changeItem (i : Int) (f : Setting → Setting) (items : List Setting) : List Setting :=
  let padding (count : Nat) : List Setting := List.replicate count .null
  if 0 ≤ i then (items ++ padding (i.toNat + 1 - items.length)).modify i.toNat f
  else
    let back := i.natAbs
    (padding (back - items.length) ++ items).modify (items.length - back) f

/-- Changes the setting that steps lead to. What is in the way and cannot be stepped into is replaced. -/
def change (f : Setting → Setting) : List SettingStep → Setting → Setting
  | [], s => f s
  | .key name :: rest, s => .table (Setting.adjust name (change f rest) s.entries)
  | .index i :: rest, s => .list (changeItem i (change f rest) s.items)

end SettingPath

/-- All settings, under their keys at the top. -/
structure Settings where
  entries : List (String × Setting) := []

namespace Settings

/-- Lays a setting over what stands at a key, or at the path that the key spells. -/
def set (s : Settings) (key : String) (value : Setting) : Settings :=
  let path := (SettingPath.parse? key).getD ⟨key, []⟩
  ⟨Setting.adjust path.root (SettingPath.change (fun old => old.overlay value) path.steps) s.entries⟩

/-- Lays a layer of settings over those before. -/
def add (s : Settings) (layer : List (String × Setting)) : Settings :=
  layer.foldl (fun s entry => s.set entry.1 entry.2) s

/-- The settings of some layers, later ones over earlier ones. -/
def ofLayers (layers : List (List (String × Setting))) : Settings := layers.foldl add {}

/-- The setting under a key at the top, null if there is none. -/
def get (s : Settings) (key : String) : Setting := (s.entries.lookup key).getD .null

end Settings

end ChainIndex
