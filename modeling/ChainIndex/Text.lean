/-!
# Characters and digits of texts

* `Text.quoteChar`: a character between single quotes, with a backslash form for what a message must not
  show raw. Only the first 256 code points are told apart: messages quote single octets.
* `Text.ofDigits`: the number that decimal digits spell; `Text.natural?`: that of a whole text.
-/

namespace ChainIndex.Text

/-- Lower-case hexadecimal digits of a number, at least one. -/
def lowerHex (n : Nat) : String :=
  String.ofList (Nat.toDigits 16 n)

/-- Whether a character below U+0100 can be shown: not a control, a blank other than the space, or
the soft hyphen. -/
def isPrintable (c : Char) : Bool :=
  (0x20 ≤ c.toNat && c.toNat < 0x7f) || (0xa1 ≤ c.toNat && c.toNat != 0xad)

/-- A character between single quotes. -/
def quoteChar (c : Char) : String :=
  let inside :=
    if c = Char.ofNat 0 then "\\0"
    else if c = '\t' then "\\t"
    else if c = '\n' then "\\n"
    else if c = '\r' then "\\r"
    else if c = '\'' then "\\'"
    else if c = '\\' then "\\\\"
    else if isPrintable c then c.toString
    else "\\u\x7b" ++ lowerHex c.toNat ++ "\x7d"
  "'" ++ inside ++ "'"

/-- The number that decimal digits spell. -/
def ofDigits (digits : List Char) : Nat := digits.foldl (fun n c => 10 * n + (c.toNat - 48)) 0

/-- The number that a text of decimal digits spells, with or without a plus in front. -/
def natural? (text : String) : Option Nat :=
  let digits := match text.toList with
    | '+' :: rest => rest
    | all => all
  if digits.isEmpty || !digits.all Char.isDigit then none else some (ofDigits digits)

end ChainIndex.Text
