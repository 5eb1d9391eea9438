import ChainIndex.Cbor.Skip

/-!
# Records as CBOR arrays

* `Reader.optionalField`: a field that may be null. It may also hold a case of an enumeration that is not
  known: then it counts as null, and the item behind the number of the case goes with it.
* `Items α`: reads an `α` from the items of one array, in their order.
* `Reader.items` reads such an array, definite or indefinite; items beyond those that are used are passed
  over, and a lack of items is an error only where a used one must be there (`Items.next`).
* `Reader.tuple` is the strict form: a definite array with exactly the items that are used.
-/

namespace ChainIndex.Cbor

namespace Reader

/-- What a reader reads; nothing if it meets an unknown case, and then the item behind the number of the
case is passed over too. -/
def ifKnown {α : Type} (value : Reader α) : Reader (Option α) := fun input =>
  match value input with
  | .ok (a, rest) => .ok (some a, rest)
  | .error f =>
    match f.resume? with
    | some rest => (do skip; return none : Reader (Option α)) rest
    | none => .error f

/-- An optional field of a record. -/
def optionalField {α : Type} (value : Reader α) : Reader (Option α) := do
  return (← ifKnown (optional value)).join

end Reader

/-- Reads from the items of an array; the state is the number of items left, if it was announced. -/
abbrev Items := StateT (Option Nat) Reader

namespace Items

/-- The next item, if there is one. -/
def next? {α : Type} (item : Reader α) : Items (Option α) := do
  match ← get with
  | some 0 => return none
  | some (left + 1) =>
    set (some left)
    return some (← item)
  | none =>
    if (← Reader.peek) = Reader.breakHead then return none
    return some (← item)

/-- The next item, which must be there. -/
def next {α : Type} (item : Reader α) : Items α := do
  match ← next? item with
  | some a => return a
  | none => throw .missingItem

/-- The next item, which is an optional field and may also be missing. -/
def nextOptional {α : Type} (item : Reader α) : Items (Option α) := do
  return (← next? (Reader.optionalField item)).join

end Items

namespace Reader

/-- Passes over the items of an array that are left, and over its break. -/
def skipRest : Option Nat → Reader Unit
  | some left => foldCount (fun _ => skip) left ()
  | none => do foldUntilBreak (pure ()) (fun _ => skip) ((← get).length + 1) ()

/-- Reads a record that is an array of its fields. -/
def items {α : Type} (fields : Items α) : Reader α := do
  let (a, left) ← fields.run (← arrayHead)
  skipRest left
  return a

/-- Refuses all but a definite array of `count` items, and leaves the items. -/
def tupleHead (count : Nat) : Reader Unit := do
  if (← arrayHead) ≠ some count then throw (.message "unexpected number of items")

/-- A pair as a definite array of two items. -/
def pair {α β : Type} (first : Reader α) (second : Reader β) : Reader (α × β) := do
  tupleHead 2
  return (← first, ← second)

/-- What a reader reads, with the octets that it took. -/
def withOctets {α : Type} (value : Reader α) : Reader (α × Bytes) := do
  let before ← get
  let a ← value
  let rest ← get
  return (a, before.take (before.length - rest.length))

/-- A value inside a byte string; octets behind it do not matter. -/
def embedded {α : Type} (value : Reader α) : Reader α := do
  match value (← byteString) with
  | .ok (a, _) => return a
  | .error f =>
    let rest ← get
    throw { f with resume? := f.resume?.map fun _ => rest }

/-- The number of a tag. -/
def tag : Reader Nat := do
  let head ← byte
  if Major.ofHead head = .tag then argument (info head) else mismatch head (kindName .tag)

/-- A value under a tag, whatever the tag. -/
def tagged {α : Type} (value : Reader α) : Reader α := do
  let _ ← tag
  value

/-- A value inside a tagged byte string. -/
def wrapped {α : Type} (value : Reader α) : Reader α := tagged (embedded value)

/-- Nothing for null and for undefined, and else what `value` reads. -/
def nullable {α : Type} (value : Reader α) : Reader (Option α) := do
  let head ← peek
  if head = 0xf6 ∨ head = 0xf7 then
    let _ ← byte
    return none
  else return some (← value)

/-- The kind of the item that comes next. -/
def nextKind : Reader Major := return Major.ofHead (← peek)

/-- The number that marks an array as a set. -/
def setTag : Nat := 258

/-- The items of a set: an array, which may stand under the tag of sets. -/
def set {α : Type} (item : Reader α) : Reader (List α) := do
  if (← nextKind) = .tag then
    if (← tag) ≠ setTag then throw (.message "unrecognised tag")
  list item

/-- An array that begins with the number of a case; what the case holds follows. The announced length of
the array is not looked at, and the break of an indefinite one is left. -/
def variant {α : Type} (cases : List (Nat × Reader α)) : Reader α := do
  let _ ← arrayHead
  match cases.lookup (← unsignedOf 16) with
  | some content => content
  | none => throw (.message "unknown case")

end Reader

end ChainIndex.Cbor
