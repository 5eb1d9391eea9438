import ChainIndex.Decimal
import ChainIndex.Settings.Basic
import ChainIndex.Text

/-!
# Typed settings

* `Setting.boolean`, `natural`, `string`: single values. Numbers, texts and truth values stand in for each
  other where the meaning is plain.
* `Setting.array`, `optional`, `choice`: values made of others.
* `Setting.record`: a table read field by field, or a list of its fields in order.
-/

namespace ChainIndex

/-- Why a setting cannot be read. -/
inductive SettingError where
  /-- The value is not of the form that is described. -/
  | unexpected (expected : String)
  | outOfRange
  | missing (key : String)
deriving DecidableEq, Repr

/-- The text shown for an error. -/
def SettingError.message : SettingError → String
  | unexpected expected => "invalid value, expected " ++ expected
  | outOfRange => "number out of range"
  | missing key => "missing setting " ++ key

namespace Setting

/-- Reads a type from a setting. -/
abbrev Decoder (α : Type) := Setting → Except SettingError α

/-- The truth value of a word, in any case. -/
def ofWord? (word : String) : Option Bool :=
  let word := String.ofList (word.toList.map Char.toLower)
  if ["true", "on", "yes"].contains word then some true
  else if ["false", "off", "no"].contains word then some false
  else none

/-- A truth value, a word or digit for one, or any number, of which only zero is false. -/
def boolean : Decoder Bool
  | bool b => .ok b
  | int i => .ok (i != 0)
  | float f => .ok (f != 0.0)
  | text s =>
    match ofWord? s with
    | some b => .ok b
    | none => if s = "1" then .ok true else if s = "0" then .ok false else .error (.unexpected "a boolean")
  | _ => .error (.unexpected "a boolean")

/-- A whole number from zero to below `bound`, itself at most 2^64. Fractions are rounded, a half away from
zero; a fraction below zero counts as zero. -/
def natural (bound : Nat) (s : Setting) : Except SettingError Nat := do
  let n ← match s with
    | int i => if 0 ≤ i then pure i.toNat else throw .outOfRange
    | float f => pure f.round.toUInt64.toNat
    | bool b => pure b.toNat
    | text t =>
      match (ofWord? t).map Bool.toNat <|> Text.natural? t with
      | some n => pure n
      | none => throw (.unexpected "an integer")
    | _ => throw (.unexpected "an integer")
  if n < bound then return n else throw .outOfRange

/-- A text, or a number or truth value as text. -/
def string : Decoder String
  | text s => .ok s
  | bool b => .ok (if b then "true" else "false")
  | int i => .ok (toString i)
  | float f => .ok (Decimal.plainText f)
  | _ => .error (.unexpected "a string")

/-- A list of values. -/
def array {α : Type} (item : Decoder α) : Decoder (List α)
  | list items => items.mapM item
  | _ => .error (.unexpected "a sequence")

/-- Null, or a value. -/
def optional {α : Type} (value : Decoder α) : Decoder (Option α)
  | null => .ok none
  | s => some <$> value s

/-- One of some names, given as a text or as the only key of a table. -/
def choice {α : Type} (names : List (String × α)) : Decoder α := fun s => do
  let name ← match s with
    | text name | table [(name, _)] => pure name
    | _ => throw (.unexpected "a name")
  match names.lookup name with
  | some a => return a
  | none => throw (.unexpected "a known name")

/-- A field of a record, read into what is known of the record so far. -/
structure Field (α : Type) where
  key : String
  read : α → Decoder α
  /-- Whether the field may be missing. -/
  mayLack : Bool := false

namespace Field

variable {α : Type}

/-- Leaves a missing field as it is if it may be missing. -/
def skip (field : Field α) (a : α) : Except SettingError α :=
  if field.mayLack then .ok a else .error (.missing field.key)

/-- Reads fields from the entries of a table, in which others may stand. -/
def readEntries (entries : List (String × Setting)) : List (Field α) → α → Except SettingError α
  | [], a => .ok a
  | field :: fields, a => do
    match entries.lookup field.key with
    | some s => readEntries entries fields (← field.read a s)
    | none => readEntries entries fields (← field.skip a)

/-- Reads fields from the items of a list, behind which others may stand. -/
def readItems : List (Field α) → List Setting → α → Except SettingError α
  | [], _, a => .ok a
  | field :: fields, [], a => do readItems fields [] (← field.skip a)
  | field :: fields, s :: items, a => do readItems fields items (← field.read a s)

end Field

/-- A record, read over its empty form. -/
def record {α : Type} (fields : List (Field α)) (empty : α) : Decoder α
  | table entries => Field.readEntries entries fields empty
  | list items => Field.readItems fields items empty
  | _ => .error (.unexpected "a table")

end Setting

end ChainIndex
