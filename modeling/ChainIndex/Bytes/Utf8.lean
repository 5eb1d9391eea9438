import ChainIndex.Bytes.Basic

/-!
# UTF-8

* `Utf8.encode`: the octets of a text.
* `Utf8.decode?`: the text of well-formed octets, and nothing for any others (`decode?_encode`).
* `Utf8.decodeLossy`: the text of any octets, with a replacement character for each piece that cannot be
  read.
-/

namespace ChainIndex.Utf8

/-- The octets of a text. -/
def encode (text : String) : Bytes :=
  text.toUTF8.data.toList

/-- The text that octets spell, if they are well formed. -/
def decode? (bytes : Bytes) : Option String :=
  String.fromUTF8? ⟨bytes.toArray⟩

theorem decode?_encode (text : String) : decode? (encode text) = some text := by
  have valid := text.isValidUTF8
  simp [decode?, encode, String.fromUTF8?, valid]
  rfl

/-- The character that stands for what cannot be read. -/
def replacement : Char := '\ufffd'

/-- For the first octet of a character of several octets: how many follow, between which numbers the first
of them lies, and the bits of the character in the first octet. -/
def lead? (octet : UInt8) : Option (Nat × Nat × Nat × Nat) :=
  let n := octet.toNat
  if 0xc2 ≤ n ∧ n ≤ 0xdf then some (1, 0x80, 0xbf, n - 0xc0)
  else if n = 0xe0 then some (2, 0xa0, 0xbf, 0)
  else if n = 0xed then some (2, 0x80, 0x9f, 0xd)
  else if 0xe1 ≤ n ∧ n ≤ 0xef then some (2, 0x80, 0xbf, n - 0xe0)
  else if n = 0xf0 then some (3, 0x90, 0xbf, 0)
  else if 0xf1 ≤ n ∧ n ≤ 0xf3 then some (3, 0x80, 0xbf, n - 0xf0)
  else if n = 0xf4 then some (3, 0x80, 0x8f, 4)
  else none

/-- Reads the octets that follow the first one of a character; a character that is broken off becomes the
replacement. -/
def follow : (count low high bits : Nat) → Bytes → Char × Bytes
  | 0, _, _, bits, rest => (Char.ofNat bits, rest)
  | _ + 1, _, _, _, [] => (replacement, [])
  | count + 1, low, high, bits, octet :: rest =>
    if low ≤ octet.toNat ∧ octet.toNat ≤ high then
      follow count 0x80 0xbf (64 * bits + (octet.toNat - 0x80)) rest
    else (replacement, octet :: rest)

/-- The characters that octets spell, at most `fuel` of them. -/
def lossyChars : (fuel : Nat) → Bytes → List Char
  | 0, _ | _, [] => []
  | fuel + 1, octet :: rest =>
    if octet < 0x80 then Char.ofNat octet.toNat :: lossyChars fuel rest
    else
      match lead? octet with
      | none => replacement :: lossyChars fuel rest
      | some (count, low, high, bits) =>
        let (c, rest) := follow count low high bits rest
        c :: lossyChars fuel rest

/-- The text that octets spell, with a replacement for each piece that cannot be read. -/
def decodeLossy (bytes : Bytes) : String :=
  (decode? bytes).getD (String.ofList (lossyChars bytes.length bytes))

end ChainIndex.Utf8
