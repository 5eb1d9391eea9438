import ChainIndex.Raw.Form

/-!
# Scripts, data and witnesses

* `Shape.nativeScript`: scripts made of keys and time limits.
* `Shape.plutusData`: the data that the other scripts work on.
* `Shape.metadata`: labelled data that scripts do not see.
* `Shape.auxiliaryData`: what stands beside a transaction: metadata alone, a definite array of metadata and
  native scripts, or a tagged map of these and of other scripts.
* `Shape.witnesses`: the signatures, scripts and data that justify a transaction.
-/

namespace ChainIndex.Raw.Shape

open Cbor Cbor.Reader

/-- The parts of a native script: their number, the number of the case counted, and their form. -/
def nativeScriptParts (inner : Cbor.Shape) : Nat → Option (Nat × List Cbor.Shape)
  | 0 => some (2, [keyHash])
  | 1 => some (2, [.array inner])
  | 2 => some (2, [.array inner])
  | 3 => some (3, [.uint32, .array inner])
  | 4 => some (2, [.uint64])
  | 5 => some (2, [.uint64])
  | _ => none

/-- One layer of a native script. The break of an indefinite one must follow its parts, and is left. -/
def nativeScriptLayer (inner : Cbor.Shape) : Cbor.Shape := do
  let announced ← arrayHead
  match nativeScriptParts inner (← uint32).toNat with
  | none => throw (.message "unknown variant id for native script")
  | some (count, parts) =>
    if announced.getD count ≠ count then throw (.message "unexpected array size in native script")
    Cbor.Shape.sequence parts
    if announced.isNone then
      if (← peek) ≠ breakHead then throw (.unexpected "item")

/-- A native script of any depth. -/
def nativeScript : Cbor.Shape := .nested nativeScriptLayer

/-- A byte string, whole or in chunks. -/
def chunkedBytes : Cbor.Shape := do
  let head ← byte
  if Major.ofHead head = .bytes then skipString .bytes (fun _ => pure ()) head
  else mismatch head (kindName .bytes)

/-- Whether a tag marks the data of a constructor. -/
def isConstructorTag (tag : Nat) : Bool :=
  (121 ≤ tag && tag ≤ 127) || (1280 ≤ tag && tag ≤ 1400)

/-- The tag of constructors whose number stands in front of the data. -/
def numberedConstructorTag : Nat := 102

/-- Whether a tag marks a number as octets. -/
def isBigNumberTag (tag : Nat) : Bool := tag == 2 || tag == 3

/-- One layer of script data. -/
def plutusDataLayer (inner : Cbor.Shape) : Cbor.Shape := do
  match ← nextKind with
  | .unsigned | .negative => Cbor.Shape.integer
  | .bytes => chunkedBytes
  | .array => Cbor.Shape.array inner
  | .map => Cbor.Shape.map inner inner
  | .tag =>
    let tag ← tag
    if isBigNumberTag tag then chunkedBytes
    else if isConstructorTag tag then Cbor.Shape.array inner
    else if tag = numberedConstructorTag then Cbor.Shape.headed [.uint64, .array inner]
    else throw (.message "unknown tag for plutus data")
  | .text | .simple => throw (.message "bad data type for plutus data")

/-- Script data of any depth. -/
def plutusData : Cbor.Shape := .nested plutusDataLayer

/-- One layer of a metadatum. -/
def metadatumLayer (inner : Cbor.Shape) : Cbor.Shape := do
  match ← nextKind with
  | .unsigned | .negative => Cbor.Shape.integer
  | .bytes => Cbor.Shape.bytes
  | .text => Cbor.Shape.text
  | .array => Cbor.Shape.array inner
  | .map => Cbor.Shape.map inner inner
  | .tag | .simple => throw (.message "bad data type for metadata")

/-- Metadata by label. -/
def metadata : Cbor.Shape := .map .uint64 (.nested metadatumLayer)

/-- The fields of tagged auxiliary data: metadata, native scripts, and the scripts of the first of the other
languages. Those of later languages are not looked at. -/
def taggedAuxiliaryFields : List (Nat × Cbor.Shape) :=
  [(0, metadata), (1, .array nativeScript), (2, .array .bytes)]

/-- What stands beside a transaction, in one of its three forms. -/
def auxiliaryData : Cbor.Shape := do
  match ← nextKind with
  | .map => metadata
  | .array =>
    if info (← peek) = 31 then throw (.unexpected "indefinite array")
    Cbor.Shape.recordWith [metadata] [.array nativeScript]
  | .tag => Reader.tagged (Cbor.Shape.numbered taggedAuxiliaryFields)
  | _ => throw (.message "bad data type for auxiliary data")

/-- A script that an output holds: native, or of one of the languages of the form. -/
def heldScript (form : Form) : Cbor.Shape :=
  let languages := match form with
    | .conway => [1, 2, 3]
    | _ => [1, 2]
  .variant ((0, [nativeScript]) :: languages.map fun language => (language, [.bytes]))

/-! ## Witnesses -/

/-- A key with its signature. -/
def signature : Cbor.Shape := .record [.bytes, .bytes]

/-- A key of a Byron address with its signature. -/
def bootstrapSignature : Cbor.Shape := .record [.bytes, .bytes, .bytes, .bytes]

/-- The arguments of scripts: what they are for, their data and what they may use. -/
def redeemers : Form → Cbor.Shape
  | .conway => do
    match ← Reader.nextKind with
    | .array => Cbor.Shape.array (.record [.caseNumber 6, .uint32, plutusData, executionUnits])
    | .map =>
      Cbor.Shape.map (.record [.caseNumber 6, .uint32]) (.record [plutusData, executionUnits])
    | _ => throw (.message "bad data type for redeemers")
  | _ => .array (.record [.caseNumber 4, .uint32, plutusData, executionUnits])

/-- The fields of the witnesses: each form knows one more script language. -/
def witnessFields (form : Form) : List (Nat × Cbor.Shape) :=
  let collection (item : Cbor.Shape) : Cbor.Shape := .of (form.collection item)
  let common := [
    (0, collection signature), (1, collection nativeScript), (2, collection bootstrapSignature),
    (3, collection .bytes), (4, collection plutusData), (5, redeemers form)]
  match form with
  | .shelley => common
  | .babbage => common ++ [(6, collection .bytes)]
  | .conway => common ++ [(6, collection .bytes), (7, collection .bytes)]

/-- The witnesses of a transaction. -/
def witnesses (form : Form) : Cbor.Shape := .numbered (witnessFields form)

end ChainIndex.Raw.Shape
