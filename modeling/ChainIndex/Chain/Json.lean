import ChainIndex.Chain.Basic
import ChainIndex.Json.Decode

/-!
# JSON form of hashes, points, headers and blocks

* A hash is a text of hexadecimal digits, written in lower case.
* `Point` may lack its number, which is then zero.
-/

namespace ChainIndex

/-- A hash from its digits. -/
def Hash.ofJson {size : Nat} : Json.Decoder (Hash size) := fun j => do
  match Hash.parse (← Json.string j) with
  | .ok hash => return hash
  | .error e => throw (.custom e.message)

/-- The JSON form of a hash: its digits. -/
def Hash.toJson {size : Nat} (hash : Hash size) : Json := .str hash.toHex

instance {size : Nat} : ToJson (Hash size) := ⟨Hash.toJson⟩
instance {size : Nat} : FromJson (Hash size) := ⟨Hash.ofJson⟩

namespace Point

/-- The fields of a point. -/
def form : Json.ObjectForm Draft Point where
  fields := [
    { name := "slot", read := fun d j => return { d with slot := some (← Json.uint64 j) } },
    { name := "hash", read := fun d j => return { d with hash := some (← Hash.ofJson j) } },
    { name := "number", read := fun d j => return { d with number := some (← Json.uint64 j) },
      mayLack := true }]
  empty := {}
  finish d := return ⟨← Json.need "slot" d.slot, ← Json.need "hash" d.hash, d.number.getD 0⟩

/-- Reads the value from JSON. -/
def ofJson : Json.Decoder Point := form.decode

/-- The JSON form of the value. -/
def toJson (p : Point) : Json :=
  .obj [("slot", .nat p.slot.toNat), ("hash", p.hash.toJson), ("number", .nat p.number.toNat)]

instance : ToJson Point := ⟨toJson⟩
instance : FromJson Point := ⟨ofJson⟩

end Point

namespace BlockHeader

/-- The fields of a header. -/
def form : Json.ObjectForm Draft BlockHeader where
  fields := [
    { name := "slot", read := fun d j => return { d with slot := some (← Json.uint64 j) } },
    { name := "hash", read := fun d j => return { d with hash := some (← Hash.ofJson j) } },
    { name := "number", read := fun d j => return { d with number := some (← Json.uint64 j) } },
    { name := "era_id", read := fun d j => return { d with eraId := some (← Json.uint8 j) } }]
  empty := {}
  finish d := return ⟨← Json.need "slot" d.slot, ← Json.need "hash" d.hash,
    ← Json.need "number" d.number, ← Json.need "era_id" d.eraId⟩

/-- Reads the value from JSON. -/
def ofJson : Json.Decoder BlockHeader := form.decode

/-- The JSON form of the value. -/
def toJson (h : BlockHeader) : Json :=
  .obj [("slot", .nat h.slot.toNat), ("hash", h.hash.toJson), ("number", .nat h.number.toNat),
    ("era_id", .nat h.eraId.toNat)]

instance : ToJson BlockHeader := ⟨toJson⟩
instance : FromJson BlockHeader := ⟨ofJson⟩

end BlockHeader

namespace ConfirmedBlock

/-- The fields of a block. -/
def form : Json.ObjectForm Draft ConfirmedBlock where
  fields := [
    { name := "slot", read := fun d j => return { d with slot := some (← Json.uint64 j) } },
    { name := "number", read := fun d j => return { d with number := some (← Json.uint64 j) } },
    { name := "hash", read := fun d j => return { d with hash := some (← Hash.ofJson j) } },
    { name := "era_id", read := fun d j => return { d with eraId := some (← Json.uint8 j) } },
    { name := "tx_hashes",
      read := fun d j => return { d with txHashes := some (← Json.array Hash.ofJson j) } }]
  empty := {}
  finish d := return ⟨← Json.need "slot" d.slot, ← Json.need "number" d.number,
    ← Json.need "hash" d.hash, ← Json.need "era_id" d.eraId, ← Json.need "tx_hashes" d.txHashes⟩

/-- Reads the value from JSON. -/
def ofJson : Json.Decoder ConfirmedBlock := form.decode

/-- The JSON form of the value. -/
def toJson (b : ConfirmedBlock) : Json :=
  .obj [("slot", .nat b.slot.toNat), ("number", .nat b.number.toNat), ("hash", b.hash.toJson),
    ("era_id", .nat b.eraId.toNat), ("tx_hashes", .arr (b.txHashes.map Hash.toJson))]

instance : ToJson ConfirmedBlock := ⟨toJson⟩
instance : FromJson ConfirmedBlock := ⟨ofJson⟩

end ConfirmedBlock

end ChainIndex
