import ChainIndex.Toml.Word

/-!
# Quoted texts of TOML

* `Quoted.basic?` and `Quoted.literal?`: a text on one line in double or single quotes. Only in double
  quotes are there escapes.
* `Quoted.longBasic?` and `Quoted.longLiteral?`: the same over several lines, between three quotes. Line
  breaks stay as they are written.

All of them begin behind the opening quotes.
-/

namespace ChainIndex.Toml

/-- Whether a character is a blank within a line. -/
def isBlank (c : Char) : Bool := c == ' ' || c == '\t'

/-- Passes over blanks within a line. -/
def skipBlanks (input : Input) : Input := input.dropWhile isBlank

/-- Whether a character may stand as itself within a line. -/
def isPlain (c : Char) : Bool := c == '\t' || (0x20 ≤ c.toNat && c.toNat != 0x7f)

/-- Passes over the end of a line. -/
def newline? : Input → Option Input
  | '\n' :: rest => some rest
  | '\r' :: '\n' :: rest => some rest
  | _ => none

namespace Quoted

/-- A character given by exactly `count` hexadecimal digits. -/
def unicode? (count : Nat) (input : Input) : Option (Char × Input) := do
  if input.length < count then none
  let digits ← (input.take count).mapM (digitOf? 16)
  let n := Word.ofDigits 16 digits
  if n < 0xd800 ∨ (0xe000 ≤ n ∧ n < 0x110000) then return (Char.ofNat n, input.drop count) else none

/-- The character of an escape, behind its backslash. -/
def escape? : Input → Option (Char × Input)
  | 'b' :: rest => some (Char.ofNat 8, rest)
  | 'e' :: rest => some (Char.ofNat 0x1b, rest)
  | 't' :: rest => some ('\t', rest)
  | 'n' :: rest => some ('\n', rest)
  | 'f' :: rest => some (Char.ofNat 12, rest)
  | 'r' :: rest => some ('\r', rest)
  | '"' :: rest => some ('"', rest)
  | '\\' :: rest => some ('\\', rest)
  | 'x' :: rest => unicode? 2 rest
  | 'u' :: rest => unicode? 4 rest
  | 'U' :: rest => unicode? 8 rest
  | _ => none

/-- A text in double quotes; `done` holds the characters so far, last first. -/
def basic? : (fuel : Nat) → Input → List Char → Option (String × Input)
  | 0, _, _ => none
  | fuel + 1, input, done =>
    match input with
    | [] => none
    | '"' :: rest => some (String.ofList done.reverse, rest)
    | '\\' :: rest => do
      let (c, rest) ← escape? rest
      basic? fuel rest (c :: done)
    | c :: rest => if isPlain c then basic? fuel rest (c :: done) else none

/-- A text in single quotes. -/
def literal? (input : Input) : Option (String × Input) :=
  match input.dropWhile fun c => isPlain c && c != '\'' with
  | '\'' :: rest => some (String.ofList (input.takeWhile fun c => isPlain c && c != '\''), rest)
  | _ => none

/-- Passes over a line break directly behind opening quotes. -/
def skipFirstNewline (input : Input) : Input := (newline? input).getD input

/-- Passes over blanks and line breaks. -/
def skipLines : Input → Input
  | '\r' :: '\n' :: rest => skipLines rest
  | c :: rest => if isBlank c || c == '\n' then skipLines rest else c :: rest
  | [] => []

/-- Behind a backslash: a line that ends there, together with the blanks in front of the next text. -/
def continuation? (input : Input) : Option Input := do
  let rest ← newline? (skipBlanks input)
  return skipLines rest

/-- The closing quotes of a long text, in front of which up to two of the same may belong to the text. -/
def close? (quote : Char) (input : Input) : Option (List Char × Input) :=
  let count := (input.takeWhile (· = quote)).length
  if 3 ≤ count then
    let inner := min (count - 3) 2
    some (List.replicate inner quote, input.drop (inner + 3))
  else none

/-- A text between three double quotes. -/
def longBasic? : (fuel : Nat) → Input → List Char → Option (String × Input)
  | 0, _, _ => none
  | fuel + 1, input, done =>
    match close? '"' input with
    | some (inner, rest) => some (String.ofList (done.reverse ++ inner), rest)
    | none =>
      match input with
      | [] => none
      | '\\' :: rest =>
        match continuation? rest with
        | some rest => longBasic? fuel rest done
        | none => do
          let (c, rest) ← escape? rest
          longBasic? fuel rest (c :: done)
      | '\r' :: '\n' :: rest => longBasic? fuel rest ('\n' :: '\r' :: done)
      | c :: rest =>
        if isPlain c || c == '\n' then longBasic? fuel rest (c :: done) else none

/-- A text between three single quotes. -/
def longLiteral? : (fuel : Nat) → Input → List Char → Option (String × Input)
  | 0, _, _ => none
  | fuel + 1, input, done =>
    match close? '\'' input with
    | some (inner, rest) => some (String.ofList (done.reverse ++ inner), rest)
    | none =>
      match input with
      | [] => none
      | '\r' :: '\n' :: rest => longLiteral? fuel rest ('\n' :: '\r' :: done)
      | c :: rest =>
        if isPlain c || c == '\n' then longLiteral? fuel rest (c :: done) else none

end Quoted

end ChainIndex.Toml
