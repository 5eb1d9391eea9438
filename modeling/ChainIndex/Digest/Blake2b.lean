import ChainIndex.Hash

/-!
# BLAKE2b-256

* `blake2b256`: the unkeyed BLAKE2b digest of 32 octets.

The chaining value and the working words are arrays of 64-bit words; a message is cut into blocks of 128
octets, the last one filled up with zeros, and each block goes through twelve rounds. Headers and
transactions are named by this digest of their octets.
-/

namespace ChainIndex

namespace Blake2b

/-- The initialisation words. -/
def initial : Array UInt64 := #[
  0x6a09e667f3bcc908, 0xbb67ae8584caa73b, 0x3c6ef372fe94f82b, 0xa54ff53a5f1d36f1,
  0x510e527fade682d1, 0x9b05688c2b3e6c1f, 0x1f83d9abfb41bd6b, 0x5be0cd19137e2179]

/-- The order in which each of the rounds takes the words of a block; the orders repeat after ten. -/
def schedule : List (Array Nat) :=
  let orders : List (Array Nat) := [
    #[0, 1, 2, 3, 4, 5, 6, 7, 8, 9, 10, 11, 12, 13, 14, 15],
    #[14, 10, 4, 8, 9, 15, 13, 6, 1, 12, 0, 2, 11, 7, 5, 3],
    #[11, 8, 12, 0, 5, 2, 15, 13, 10, 14, 3, 6, 7, 1, 9, 4],
    #[7, 9, 3, 1, 13, 12, 11, 14, 2, 6, 5, 10, 4, 0, 15, 8],
    #[9, 0, 5, 7, 2, 4, 10, 15, 14, 1, 11, 12, 6, 8, 3, 13],
    #[2, 12, 6, 10, 0, 11, 8, 3, 4, 13, 7, 5, 15, 14, 1, 9],
    #[12, 5, 1, 15, 14, 13, 4, 10, 0, 7, 6, 3, 9, 2, 8, 11],
    #[13, 11, 7, 14, 12, 1, 3, 9, 5, 0, 15, 4, 8, 6, 2, 10],
    #[6, 15, 14, 9, 11, 3, 0, 8, 12, 2, 13, 7, 1, 4, 10, 5],
    #[10, 2, 8, 4, 7, 6, 1, 5, 15, 11, 9, 14, 3, 12, 13, 0]]
  orders ++ orders.take 2

/-- A word turned right by some bits. -/
def rotateRight (word : UInt64) (bits : UInt64) : UInt64 :=
  (word >>> bits) ||| (word <<< (64 - bits))

/-- Mixes two words of the message into four of the working words. -/
def mix (v : Array UInt64) (a b c d : Nat) (x y : UInt64) : Array UInt64 :=
  let va := v.getD a 0 + v.getD b 0 + x
  let vd := rotateRight (v.getD d 0 ^^^ va) 32
  let vc := v.getD c 0 + vd
  let vb := rotateRight (v.getD b 0 ^^^ vc) 24
  let va := va + vb + y
  let vd := rotateRight (vd ^^^ va) 16
  let vc := vc + vd
  let vb := rotateRight (vb ^^^ vc) 63
  (((v.setIfInBounds a va).setIfInBounds b vb).setIfInBounds c vc).setIfInBounds d vd

/-- The quadruples of working words that a round mixes: columns, then diagonals. -/
def lanes : List (Nat × Nat × Nat × Nat) := [
  (0, 4, 8, 12), (1, 5, 9, 13), (2, 6, 10, 14), (3, 7, 11, 15),
  (0, 5, 10, 15), (1, 6, 11, 12), (2, 7, 8, 13), (3, 4, 9, 14)]

/-- One round over the words of a block. -/
def round (block : Array UInt64) (v : Array UInt64) (order : Array Nat) : Array UInt64 :=
  lanes.zipIdx.foldl (fun v ((a, b, c, d), lane) =>
    let word (i : Nat) : UInt64 := block.getD (order.getD i 0) 0
    mix v a b c d (word (2 * lane)) (word (2 * lane + 1))) v

/-- Takes a block into the chaining value. `length` counts the octets up to the end of the block. -/
def compress (h : Array UInt64) (block : Array UInt64) (length : Nat) (isLast : Bool) :
    Array UInt64 :=
  let start := h ++ initial
  let start := start.modify 12 (· ^^^ UInt64.ofNat length)
  let start := start.modify 13 (· ^^^ UInt64.ofNat (length / UInt64.size))
  let start := if isLast then start.modify 14 (~~~ ·) else start
  let v := schedule.foldl (round block) start
  h.zipIdx.map fun (word, i) => word ^^^ v.getD i 0 ^^^ v.getD (i + 8) 0

/-- The number that octets spell, least significant first. -/
def littleEndianWord (bytes : Bytes) : UInt64 :=
  bytes.foldr (fun byte word => word <<< 8 ||| byte.toUInt64) 0

/-- The octets of a word, least significant first. -/
def littleEndianBytes (word : UInt64) : Bytes :=
  (List.range 8).map fun i => (word >>> (8 * UInt64.ofNat i)).toUInt8

/-- The sixteen words of a block; absent octets count as zeros. -/
def blockWords (bytes : Bytes) : Array UInt64 :=
  ((List.range 16).map fun i => littleEndianWord ((bytes.drop (8 * i)).take 8)).toArray

/-- Takes a message into the chaining value; `seen` octets came before. -/
def absorb (h : Array UInt64) (seen : Nat) (message : Bytes) : Array UInt64 :=
  if message.length ≤ 128 then
    compress h (blockWords message) (seen + message.length) true
  else
    absorb (compress h (blockWords (message.take 128)) (seen + 128) false) (seen + 128)
      (message.drop 128)
termination_by message.length
decreasing_by simp [List.length_drop]; omega

/-- The chaining value before the message, for an unkeyed digest of 32 octets. -/
def start : Array UInt64 := initial.modify 0 (· ^^^ 0x01010020)

theorem length_flatMap_littleEndianBytes (words : List UInt64) :
    (words.flatMap littleEndianBytes).length = 8 * words.length := by
  induction words with
  | nil => rfl
  | cons word words ih =>
    rw [List.flatMap_cons, List.length_append, ih]
    simp [littleEndianBytes]
    omega

/-- The first 32 octets of a chaining value. -/
def output (h : Array UInt64) : Hash 32 where
  bytes := ((List.range 4).map (h.getD · 0)).flatMap littleEndianBytes
  length_bytes := by rw [length_flatMap_littleEndianBytes]; simp

end Blake2b

/-- The BLAKE2b digest of 32 octets. -/
def blake2b256 (message : Bytes) : Hash 32 :=
  Blake2b.output (Blake2b.absorb Blake2b.start 0 message)

end ChainIndex
