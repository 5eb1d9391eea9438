import ChainIndex.Cbor.Shape
import ChainIndex.Chain.Basic

/-!
# Forms of blocks

* `Form`: how the blocks of an era are written. Shelley, Allegra, Mary and Alonzo share a form that was
  only added to; Babbage and Conway each changed it. Byron stands apart.
* Shapes of the small parts that most others are made of.
-/

namespace ChainIndex.Raw

open Cbor

/-- The forms of the blocks since Shelley, oldest first. -/
inductive Form where
  | shelley | babbage | conway
deriving DecidableEq, Repr

/-- The form of an era; Byron has one of its own. -/
def Form.ofEra? : Era → Option Form
  | .byron => none
  | .shelley | .allegra | .mary | .alonzo => some .shelley
  | .babbage => some .babbage
  | .conway => some .conway

/-- The items of a collection that is a set since Conway and was an array before. -/
def Form.collection {α : Type} (form : Form) (item : Reader α) : Reader (List α) :=
  if form = .conway then Reader.set item else Reader.list item

namespace Shape

/-- The hash of a key or of a script. -/
def keyHash : Cbor.Shape := Cbor.Shape.octets 28

/-- The hash of anything else. -/
def hash : Cbor.Shape := Cbor.Shape.octets 32

/-- The credential of a stake holder. -/
def credential : Cbor.Shape := .variant [(0, [keyHash]), (1, [keyHash])]

/-- A fraction, under a tag. -/
def rational : Cbor.Shape :=
  Reader.tagged (Cbor.Shape.headed [.uint64, .uint64])

/-- Major and minor version of the protocol. -/
def protocolVersion : Cbor.Shape := .tuple [.uint64, .uint64]

/-- The output that an input spends: hash of the transaction and index. -/
def reference : Cbor.Shape := .record [hash, .uint64]

/-- Memory and steps that a script may use. -/
def executionUnits : Cbor.Shape := .record [.uint64, .uint64]

/-- Quantities by policy and asset name. -/
def assets (quantity : Cbor.Shape) : Cbor.Shape := .map keyHash (.map .bytes quantity)

end Shape

end ChainIndex.Raw
