import ChainIndex.Json.Basic

/-!
# Typed JSON

* `Json.DecodeError`: the ways in which a value is not the form of a type.
* `natural`, `boolean`, `string`, `array`, `optional`: single values.
* `ObjectForm`: a record as an object whose fields may stand in any order among others, or as an array
  of its fields in order.
* `ToJson` and `FromJson`: types that are written as JSON and read from it, with the instances of numbers,
  texts, truth values, lists and optional values.
-/

namespace ChainIndex.Json

/-- Why a value is not of the form asked for. -/
inductive DecodeError where
  /-- A value of another kind. -/
  | invalidType
  /-- A value of the right kind outside the range. -/
  | invalidValue
  /-- An array with too few or too many items for a record. -/
  | invalidLength
  /-- An object without a field that it must have. -/
  | missingField (name : String)
  /-- A text that is not the form of what it should be. -/
  | custom (text : String)
deriving DecidableEq, Repr

/-- The text shown for an error that has one. -/
def DecodeError.message? : DecodeError → Option String
  | .missingField name => some ("missing field \x60" ++ name ++ "\x60")
  | .custom text => some text
  | _ => none

/-- Reads a type from a value. -/
abbrev Decoder (α : Type) := Json → Except DecodeError α

/-- A whole number from zero to below `bound`. -/
def natural (bound : Nat) : Decoder Nat
  | .int i => if 0 ≤ i ∧ i < bound then .ok i.toNat else .error .invalidValue
  | _ => .error .invalidType

/-- A whole number of 8 bits. -/
def uint8 : Decoder UInt8 := fun j => UInt8.ofNat <$> natural UInt8.size j

/-- A whole number of 32 bits. -/
def uint32 : Decoder UInt32 := fun j => UInt32.ofNat <$> natural UInt32.size j

/-- A whole number of 64 bits. -/
def uint64 : Decoder UInt64 := fun j => UInt64.ofNat <$> natural UInt64.size j

/-- One of the two truth values. -/
def boolean : Decoder Bool
  | .bool b => .ok b
  | _ => .error .invalidType

/-- A string. -/
def string : Decoder String
  | .str s => .ok s
  | _ => .error .invalidType

/-- An array of values. -/
def array {α : Type} (item : Decoder α) : Decoder (List α)
  | .arr items => items.mapM item
  | _ => .error .invalidType

/-- An octet string as an array of numbers. -/
def octets : Decoder (List UInt8) := array uint8

/-- Null, or a value. -/
def optional {α : Type} (value : Decoder α) : Decoder (Option α)
  | .null => .ok none
  | j => some <$> value j

/-- The value of a field that must be there. -/
def need {α : Type} (name : String) : Option α → Except DecodeError α
  | some a => .ok a
  | none => .error (.missingField name)

/-- A field of a record that is read into a draft `δ`. -/
structure Field (δ : Type) where
  name : String
  read : δ → Decoder δ
  /-- Whether the field may be missing at the end of an array. -/
  mayLack : Bool := false

/-- How a record `α` is read by way of a draft `δ`. -/
structure ObjectForm (δ α : Type) where
  fields : List (Field δ)
  empty : δ
  finish : δ → Except DecodeError α

namespace ObjectForm

variable {δ α : Type}

/-- Reads the fields of an object in the order in which they stand; unknown ones are ignored. -/
def readFields (form : ObjectForm δ α) : List (String × Json) → δ → Except DecodeError δ
  | [], draft => .ok draft
  | (name, value) :: rest, draft =>
    match form.fields.find? fun field => field.name = name with
    | some field => do readFields form rest (← field.read draft value)
    | none => readFields form rest draft

/-- Reads the items of an array as the fields in order. -/
def readItems : List (Field δ) → List Json → δ → Except DecodeError δ
  | [], [], draft => .ok draft
  | [], _ :: _, _ => .error .invalidLength
  | field :: fields, [], draft =>
    if field.mayLack then readItems fields [] draft else .error .invalidLength
  | field :: fields, item :: items, draft => do readItems fields items (← field.read draft item)

/-- Reads the record. -/
def decode (form : ObjectForm δ α) : Decoder α
  | .obj fields => do form.finish (← form.readFields fields form.empty)
  | .arr items => do form.finish (← readItems form.fields items form.empty)
  | _ => .error .invalidType

end ObjectForm

end ChainIndex.Json

/-! ## Types with a JSON form -/

namespace ChainIndex

/-- Types that are written as JSON. -/
class ToJson (α : Type) where
  toJson : α → Json

/-- Types that are read from JSON. -/
class FromJson (α : Type) where
  ofJson : Json.Decoder α

export ToJson (toJson)

instance : ToJson Json := ⟨id⟩
instance : ToJson String := ⟨.str⟩
instance : ToJson Bool := ⟨.bool⟩
instance : ToJson Nat := ⟨.nat⟩
instance : ToJson UInt8 := ⟨fun n => .nat n.toNat⟩
instance : ToJson UInt32 := ⟨fun n => .nat n.toNat⟩
instance : ToJson UInt64 := ⟨fun n => .nat n.toNat⟩
instance {α : Type} [ToJson α] : ToJson (List α) := ⟨fun items => .arr (items.map toJson)⟩
instance {α : Type} [ToJson α] : ToJson (Option α) := ⟨fun a => .opt (a.map toJson)⟩

instance : FromJson Json := ⟨pure⟩
instance : FromJson String := ⟨Json.string⟩
instance : FromJson Bool := ⟨Json.boolean⟩
instance : FromJson UInt8 := ⟨Json.uint8⟩
instance : FromJson UInt32 := ⟨Json.uint32⟩
instance : FromJson UInt64 := ⟨Json.uint64⟩
instance {α : Type} [FromJson α] : FromJson (List α) := ⟨Json.array FromJson.ofJson⟩

end ChainIndex
