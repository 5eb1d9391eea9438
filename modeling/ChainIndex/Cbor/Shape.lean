import ChainIndex.Cbor.Items

/-!
# Shapes

* `Shape`: checks the form of an item and keeps nothing of it.

A block holds much that the index has no use for. It still has to be well formed, so its form is
described here by small shapes put together: `record` for arrays of fields, `numbered` for maps from
field numbers, `variant` for arrays that begin with the number of a case, `nested` for forms that hold
items of their own form.
-/

namespace ChainIndex.Cbor

/-- The form of an item whose content does not matter. -/
abbrev Shape := Reader Unit

namespace Shape

/-- Forgets what a reader reads. -/
def of {α : Type} (value : Reader α) : Shape := do
  let _ ← value

/-- A number of 8 bits. -/
def uint8 : Shape := of Reader.uint8

/-- A number of 16 bits. -/
def uint16 : Shape := of (Reader.unsignedOf 16)

/-- A number of 32 bits. -/
def uint32 : Shape := of Reader.uint32

/-- A number of 64 bits. -/
def uint64 : Shape := of Reader.uint64

/-- A number of 64 bits other than zero. -/
def positive : Shape := do
  if (← Reader.uint64) = 0 then throw (.message "zero where a positive number is expected")

/-- One of the two truth values. -/
def bool : Shape := of Reader.bool

/-- A definite byte string. -/
def bytes : Shape := of Reader.byteString

/-- A definite text. -/
def text : Shape := of Reader.text

/-- A definite byte string of exactly `size` octets. -/
def octets (size : Nat) : Shape := do
  if (← Reader.byteString).length ≠ size then throw (.message "invalid hash size")

/-- The number of one of `count` cases. -/
def caseNumber (count : Nat) : Shape := of (Reader.caseNumber count)

/-- A number of 32 bits below `bound`. -/
def below (bound : Nat) : Shape := do
  if bound ≤ (← Reader.uint32).toNat then throw (.message "number out of range")

/-- A whole number of either sign, up to 64 bits beside the sign. -/
def integer : Shape := do
  let head ← Reader.byte
  let kind := Major.ofHead head
  if (kind = .unsigned ∨ kind = .negative) ∧ info head < 28 then
    of (Reader.argument (info head))
  else Reader.mismatch head (Reader.kindName kind)

/-- A whole number from -2^63 to below 2^63; `allowZero` says whether zero is one. -/
def int64 (allowZero : Bool) : Shape := do
  let head ← Reader.byte
  let kind := Major.ofHead head
  if (kind = .unsigned ∨ kind = .negative) ∧ info head < 28 then
    let n ← Reader.argument (info head)
    if 0x8000000000000000 ≤ n then Reader.overflow n (info head) 63
    if kind = .unsigned ∧ n = 0 ∧ allowZero = false then
      throw (.message "zero where another number is expected")
  else Reader.mismatch head (Reader.kindName kind)

/-- An array of any length. -/
def array (item : Shape) : Shape := Reader.foldArray (fun _ => item) ()

/-- A map of any size. -/
def map (key value : Shape) : Shape := Reader.foldMap (fun _ => do key; value) ()

/-- Null, or an item of the form. -/
def optional (item : Shape) : Shape := of (Reader.optional item)

/-- An optional field of the form. -/
def optionalField (item : Shape) : Shape := of (Reader.optionalField item)

/-- Null, undefined, or an item of the form. -/
def nullable (item : Shape) : Shape := of (Reader.nullable item)

/-- Items that follow each other. -/
def sequence (items : List Shape) : Shape := items.forM id

/-- An array, which may stand under the tag of sets. -/
def set (item : Shape) : Shape := of (Reader.set item)

/-- An array of fields, all of which must be there. -/
def record (fields : List Shape) : Shape := Reader.items (fields.forM Items.next)

/-- An array of fields, of which those in `optionalFields`, at the end, are optional and may be missing. -/
def recordWith (fields optionalFields : List Shape) : Shape :=
  Reader.items do
    fields.forM Items.next
    optionalFields.forM fun field => do
      let _ ← Items.nextOptional field

/-- The head of an array, of which the announced length is not looked at, and then these items. The break of
an indefinite array is left. -/
def headed (fields : List Shape) : Shape := do
  let _ ← Reader.arrayHead
  sequence fields

/-- A definite array of exactly these items. -/
def tuple (fields : List Shape) : Shape := do
  Reader.tupleHead fields.length
  sequence fields

/-- A map from the numbers of optional fields; items under other numbers may be anything. -/
def numbered (fields : List (Nat × Shape)) : Shape :=
  Reader.foldMap (fun _ => do
    match fields.lookup (← Reader.uint32).toNat with
    | some field => optionalField field
    | none => Reader.skip) ()

/-- An array that begins with the number of a case, followed by the items of the case. -/
def variant (cases : List (Nat × List Shape)) : Shape :=
  Reader.variant (cases.map fun (number, items) => (number, sequence items))

/-- Recursion `depth` layers deep. -/
def nestedTo (layer : Shape → Shape) : Nat → Shape
  | 0 => throw .endOfInput
  | depth + 1 => layer (nestedTo layer depth)

/-- A form that may hold items of its own form. Each layer takes an octet, so the number of octets bounds
the depth. -/
def nested (layer : Shape → Shape) : Shape := do
  nestedTo layer ((← get).length + 1)

end Shape

end ChainIndex.Cbor
