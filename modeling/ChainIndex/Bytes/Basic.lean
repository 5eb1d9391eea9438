/-!
# Byte strings

* `Bytes`: a list of octets. Lists are what a proof can take apart; every buffer of this library
  is one.
* `bigEndian` writes a number in a fixed number of octets, most significant first, and
  `ofBigEndian` reads one back (`ofBigEndian_bigEndian`).
* `Bytes.takeExact?` splits off a front of a given length when there are that many octets.
-/

namespace ChainIndex

/-- A string of octets. -/
abbrev Bytes := List UInt8

/-- The low `width` octets of a number, most significant first. -/
def bigEndian : (width : Nat) → Nat → Bytes
  | 0, _ => []
  | width + 1, n => bigEndian width (n / 256) ++ [UInt8.ofNat n]

/-- The number that octets spell, most significant first. -/
def ofBigEndian (bytes : Bytes) : Nat :=
  bytes.foldl (fun n byte => n * 256 + byte.toNat) 0

@[simp] theorem length_bigEndian (width n : Nat) : (bigEndian width n).length = width := by
  induction width generalizing n with
  | zero => rfl
  | succ width ih => simp [bigEndian, ih]

theorem ofBigEndian_append_singleton (bytes : Bytes) (byte : UInt8) :
    ofBigEndian (bytes ++ [byte]) = ofBigEndian bytes * 256 + byte.toNat := by
  simp [ofBigEndian, List.foldl_append]

/-- Writing keeps the number modulo what the width can hold. -/
theorem ofBigEndian_bigEndian (width n : Nat) :
    ofBigEndian (bigEndian width n) = n % Nat.pow 256 width := by
  induction width generalizing n with
  | zero => simp [bigEndian, ofBigEndian, Nat.mod_one]
  | succ width ih =>
    have low : (UInt8.ofNat n).toNat = n % 256 := by simp
    have step : Nat.pow 256 (width + 1) = 256 * Nat.pow 256 width := Nat.mul_comm _ _
    rw [bigEndian, ofBigEndian_append_singleton, ih, low, step, Nat.mod_mul]
    omega

namespace Bytes

/-- The front of `count` octets and the rest, when there are that many. -/
def takeExact? (count : Nat) (bytes : Bytes) : Option (Bytes × Bytes) :=
  let front := bytes.take count
  if front.length = count then some (front, bytes.drop count) else none

theorem takeExact?_append {count : Nat} {front : Bytes} (rest : Bytes)
    (length_front : front.length = count) :
    takeExact? count (front ++ rest) = some (front, rest) := by
  subst length_front
  simp [takeExact?]

theorem takeExact?_eq_none {count : Nat} {bytes : Bytes} (short : bytes.length < count) :
    takeExact? count bytes = none := by
  have : min count bytes.length ≠ count := by omega
  simp [takeExact?, List.length_take, this]

end Bytes

end ChainIndex
