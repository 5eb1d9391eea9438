import ChainIndex.Decimal
import ChainIndex.Json.Basic
import ChainIndex.Text

/-!
# Writing JSON

* `Json.compact`: on one line without blanks.
* `Json.pretty`: each item on a line of its own, indented by two blanks for each level; empty
  containers stay on their line.
-/

namespace ChainIndex.Json

/-- A character inside a JSON text: quotes, backslashes and controls are escaped. -/
def escapeChar (c : Char) : String :=
  if c = '"' then "\\\""
  else if c = '\\' then "\\\\"
  else if c = '\n' then "\\n"
  else if c = '\r' then "\\r"
  else if c = '\t' then "\\t"
  else if c.toNat = 8 then "\\b"
  else if c.toNat = 12 then "\\f"
  else if c.toNat < 0x20 then
    "\\u00" ++ (if c.toNat < 0x10 then "0" else "") ++ Text.lowerHex c.toNat
  else c.toString

/-- A text in quotes. -/
def quote (s : String) : String :=
  "\"" ++ String.join (s.toList.map escapeChar) ++ "\""

mutual

/-- A value on one line. -/
def compact : Json → String
  | .null => "null"
  | .bool b => if b then "true" else "false"
  | .int i => toString i
  | .float f => Decimal.jsonText f
  | .str s => quote s
  | .arr items => "[" ++ compactItems items ++ "]"
  | .obj fields => "\x7b" ++ compactFields fields ++ "\x7d"

/-- The items of an array, with commas between them. -/
def compactItems : List Json → String
  | [] => ""
  | [item] => compact item
  | item :: next :: rest => compact item ++ "," ++ compactItems (next :: rest)

/-- The fields of an object, with commas between them. -/
def compactFields : List (String × Json) → String
  | [] => ""
  | [(name, value)] => quote name ++ ":" ++ compact value
  | (name, value) :: next :: rest =>
    quote name ++ ":" ++ compact value ++ "," ++ compactFields (next :: rest)

end

/-- A new line at a level of nesting. -/
def newLine (level : Nat) : String :=
  "\n" ++ String.ofList (List.replicate (2 * level) ' ')

mutual

/-- A value over several lines, whose containers stand at `level`. -/
def prettyAt (level : Nat) : Json → String
  | .arr [] => "[]"
  | .arr (item :: rest) => "[" ++ prettyItems (level + 1) (item :: rest) ++ newLine level ++ "]"
  | .obj [] => "\x7b\x7d"
  | .obj (field :: rest) =>
    "\x7b" ++ prettyFields (level + 1) (field :: rest) ++ newLine level ++ "\x7d"
  | .null => "null"
  | .bool b => if b then "true" else "false"
  | .int i => toString i
  | .float f => Decimal.jsonText f
  | .str s => quote s

/-- The items of an array, each on its line. -/
def prettyItems (level : Nat) : List Json → String
  | [] => ""
  | [item] => newLine level ++ prettyAt level item
  | item :: next :: rest =>
    newLine level ++ prettyAt level item ++ "," ++ prettyItems level (next :: rest)

/-- The fields of an object, each on its line. -/
def prettyFields (level : Nat) : List (String × Json) → String
  | [] => ""
  | [(name, value)] => newLine level ++ quote name ++ ": " ++ prettyAt level value
  | (name, value) :: next :: rest =>
    newLine level ++ quote name ++ ": " ++ prettyAt level value ++ "," ++
      prettyFields level (next :: rest)

end

/-- A value over several lines. -/
def pretty (j : Json) : String := prettyAt 0 j

end ChainIndex.Json
