import ChainIndex.Bytes.Hex

/-!
# Hashes

* `Hash size`: an opaque byte string of exactly `size` octets; `BlockHash`, `TxHash` and `DatumHash`
  have 32.
* `Hash.ofBytes?` and `Hash.parse` refuse every other length; `Hash.toHex` is the text form.
* Hashes are ordered as byte strings, which is also their order inside a storage key.
-/

namespace ChainIndex

/-- A hash of `size` octets. -/
structure Hash (size : Nat) where
  bytes : Bytes
  length_bytes : bytes.length = size
deriving DecidableEq

/-- Hash of a block header. -/
abbrev BlockHash := Hash 32

/-- Hash of a transaction body. -/
abbrev TxHash := Hash 32

/-- Hash of a datum. -/
abbrev DatumHash := Hash 32

namespace Hash

variable {size : Nat}

@[ext] theorem ext {a b : Hash size} (bytes_eq : a.bytes = b.bytes) : a = b := by
  cases a; cases b; cases bytes_eq; rfl

/-- The hash of all zeros. -/
def zero : Hash size := ⟨List.replicate size 0, by simp⟩

instance : Inhabited (Hash size) := ⟨zero⟩

/-- The hash with the given octets, if their number fits. -/
def ofBytes? (bytes : Bytes) : Option (Hash size) :=
  if h : bytes.length = size then some ⟨bytes, h⟩ else none

theorem ofBytes?_bytes (hash : Hash size) : ofBytes? hash.bytes = some hash := by
  simp [ofBytes?, hash.length_bytes]

theorem ofBytes?_eq_some_iff {bytes : Bytes} {hash : Hash size} :
    ofBytes? bytes = some hash ↔ hash.bytes = bytes := by
  constructor
  · unfold ofBytes?
    split
    · rintro ⟨⟩; rfl
    · simp
  · rintro rfl; exact ofBytes?_bytes hash

/-- Whether every octet is zero. -/
def isZero (hash : Hash size) : Bool :=
  hash.bytes.all (· == 0)

/-- The lower-case hexadecimal form. -/
def toHex (hash : Hash size) : String :=
  Hex.encode hash.bytes

/-- The form that also shows the size. -/
def describe (hash : Hash size) : String :=
  "Hash<" ++ toString size ++ ">(\"" ++ hash.toHex ++ "\")"

theorem length_of_decodeDigits {index : Nat} {digits bytes : Bytes}
    (h : Hex.decodeDigits index digits = .ok bytes) : bytes.length = digits.length / 2 := by
  fun_induction Hex.decodeDigits index digits generalizing bytes with
  | case1 => cases h; rfl
  | case2 => cases h
  | case3 => cases h
  | case4 => cases h
  | case5 index high low rest hi hHigh lo hLow ih =>
    simp only [bind, Except.bind] at h
    split at h
    · cases h
    · rename_i tail htail
      cases h
      simp only [List.length_cons, ih htail]
      omega

theorem length_of_decode {length : Nat} {text : String} {bytes : Bytes}
    (h : Hex.decode length text = .ok bytes) : bytes.length = length := by
  simp only [Hex.decode] at h
  split at h
  · cases h
  · split at h
    · cases h
    · rename_i ne
      have := length_of_decodeDigits h
      omega

/-- The hash that a text of hexadecimal digits spells. -/
def parse (text : String) : Except Hex.Error (Hash size) :=
  match h : Hex.decode size text with
  | .ok bytes => .ok ⟨bytes, length_of_decode h⟩
  | .error e => .error e

instance : LT (Hash size) := ⟨fun a b => a.bytes < b.bytes⟩

instance (a b : Hash size) : Decidable (a < b) :=
  inferInstanceAs (Decidable (a.bytes < b.bytes))

end Hash

end ChainIndex
