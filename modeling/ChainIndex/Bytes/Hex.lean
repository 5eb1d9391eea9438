import ChainIndex.Bytes.Utf8
import ChainIndex.Text

/-!
# Hexadecimal text

* `Hex.encode`: two lower-case digits for each octet.
* `Hex.decode`: digits of either case back to octets, for a text that must have a given length.

`Hex.Error` names the three ways in which a text fails, tested in this order: an odd number of
characters, a number that does not fit the length asked for, a character that is no digit. Characters
are counted as the octets of their UTF-8 form.
-/

namespace ChainIndex.Hex

/-- Why a text is not the hexadecimal form of a byte string of the length asked for. -/
inductive Error where
  /-- The octet `byte` at position `index` is no digit. -/
  | invalidCharacter (byte : UInt8) (index : Nat)
  | oddLength
  | wrongLength
deriving DecidableEq, Repr

/-- The text shown for an error; a stray octet is shown as the character of its number. -/
def Error.message : Error → String
  | .invalidCharacter byte index =>
    "Invalid character " ++ Text.quoteChar (Char.ofNat byte.toNat) ++ " at position " ++
      toString index
  | .oddLength => "Odd number of digits"
  | .wrongLength => "Invalid string length"

/-- The lower-case digit of a number below 16. -/
def digit (n : Nat) : Char :=
  if n < 10 then Char.ofNat (48 + n) else Char.ofNat (87 + n)

/-- The number that an octet stands for as a digit of either case. -/
def digitValue? (byte : UInt8) : Option Nat :=
  let n := byte.toNat
  if 48 ≤ n ∧ n ≤ 57 then some (n - 48)
  else if 97 ≤ n ∧ n ≤ 102 then some (n - 87)
  else if 65 ≤ n ∧ n ≤ 70 then some (n - 55)
  else none

/-- The two digits of an octet. -/
def encodeByte (byte : UInt8) : List Char :=
  [digit (byte.toNat / 16), digit (byte.toNat % 16)]

/-- The digits of a byte string. -/
def encode (bytes : Bytes) : String :=
  String.ofList (bytes.flatMap encodeByte)

/-- Reads pairs of digits, the first at position `index`. -/
def decodeDigits (index : Nat) : Bytes → Except Error Bytes
  | [] => .ok []
  | [_] => .error .oddLength
  | high :: low :: rest =>
    match digitValue? high, digitValue? low with
    | none, _ => .error (.invalidCharacter high index)
    | some _, none => .error (.invalidCharacter low (index + 1))
    | some h, some l => do
      return UInt8.ofNat (16 * h + l) :: (← decodeDigits (index + 2) rest)

/-- The byte string of length `length` that a text spells. -/
def decode (length : Nat) (text : String) : Except Error Bytes :=
  let digits := Utf8.encode text
  if digits.length % 2 = 1 then .error .oddLength
  else if digits.length / 2 ≠ length then .error .wrongLength
  else decodeDigits 0 digits

/-- The byte string of any length that a text spells. -/
def decodeAny (text : String) : Except Error Bytes :=
  decode ((Utf8.encode text).length / 2) text

end ChainIndex.Hex
