import ChainIndex.Toml.Quoted
import ChainIndex.Toml.Table

/-!
# Reading TOML

* `Toml.parse?`: the settings of a TOML 1.1 document, or nothing if it is not one.

A document is read line by line: a header opens a table, and a line with an equals sign sets a value in
the table opened last. Arrays and tables in braces may run over several lines and may end in a comma; they
nest at most `Parser.maxDepth` deep.
-/

namespace ChainIndex.Toml

namespace Parser

/-- Passes over a comment, if there is one. -/
def skipComment? : Input → Option Input
  | '#' :: rest =>
    match rest.dropWhile isPlain with
    | [] => some []
    | c :: behind => if (newline? (c :: behind)).isSome then some (c :: behind) else none
  | rest => some rest

/-- Passes over blanks, comments and line breaks. -/
def skipSpace? : (fuel : Nat) → Input → Option Input
  | 0, _ => none
  | fuel + 1, input => do
    let input ← skipComment? (skipBlanks input)
    match newline? input with
    | some rest => skipSpace? fuel rest
    | none => return input

/-- A key without dots. -/
def simpleKey? : Input → Option (String × Input)
  | '"' :: rest => Quoted.basic? (rest.length + 1) rest []
  | '\'' :: rest => Quoted.literal? rest
  | input =>
    let isKeyChar (c : Char) : Bool := c.isAlphanum || c == '_' || c == '-'
    match input.takeWhile isKeyChar with
    | [] => none
    | name => some (String.ofList name, input.dropWhile isKeyChar)

/-- A key, with dots between its parts, and the blanks around it. -/
def key? : (fuel : Nat) → Input → Option (List String × Input)
  | 0, _ => none
  | fuel + 1, input => do
    let (name, rest) ← simpleKey? (skipBlanks input)
    match skipBlanks rest with
    | '.' :: rest =>
      let (names, rest) ← key? fuel rest
      return (name :: names, rest)
    | rest => return ([name], rest)

/-- Whether a character can be part of a word. -/
def isWordChar (c : Char) : Bool :=
  c.isAlphanum || c == '_' || c == '-' || c == '+' || c == '.' || c == ':'

/-- A value without quotes or brackets. Between a date and a time there may be a blank. -/
def word? (input : Input) : Option (Setting × Input) := do
  let word := input.takeWhile isWordChar
  let rest := input.dropWhile isWordChar
  match (Word.date? word).filter (·.2.isEmpty), rest with
  | some _, ' ' :: behind =>
    let time := behind.takeWhile isWordChar
    if (Word.field? 2 24 time).isSome then
      return (← Word.toSetting? (word ++ ' ' :: time), behind.dropWhile isWordChar)
    else return (← Word.toSetting? word, rest)
  | _, _ => return (← Word.toSetting? word, rest)

/-- How deep arrays and tables in braces may nest. -/
def maxDepth : Nat := 80

mutual

/-- A value, in which arrays and tables in braces nest at most `depth` deep. -/
def value? : (fuel depth : Nat) → Input → Option (Setting × Input)
  | 0, _, _ => none
  | fuel + 1, depth, input =>
    match input with
    | '"' :: '"' :: '"' :: rest => do
      let rest := Quoted.skipFirstNewline rest
      let (s, rest) ← Quoted.longBasic? (rest.length + 1) rest []
      return (.text s, rest)
    | '\'' :: '\'' :: '\'' :: rest => do
      let rest := Quoted.skipFirstNewline rest
      let (s, rest) ← Quoted.longLiteral? (rest.length + 1) rest []
      return (.text s, rest)
    | '"' :: rest => do
      let (s, rest) ← Quoted.basic? (rest.length + 1) rest []
      return (.text s, rest)
    | '\'' :: rest => do
      let (s, rest) ← Quoted.literal? rest
      return (.text s, rest)
    | '[' :: rest =>
      match depth with
      | 0 => none
      | depth + 1 => items? fuel depth rest []
    | '\x7b' :: rest =>
      match depth with
      | 0 => none
      | depth + 1 => fields? fuel depth rest []
    | _ => word? input

/-- The items of an array up to its end; `done` holds those before, last first. -/
def items? : (fuel depth : Nat) → Input → List Setting → Option (Setting × Input)
  | 0, _, _, _ => none
  | fuel + 1, depth, input, done => do
    match ← skipSpace? (input.length + 1) input with
    | ']' :: rest => return (.list done.reverse, rest)
    | rest =>
      let (item, rest) ← value? fuel depth rest
      match ← skipSpace? (rest.length + 1) rest with
      | ',' :: rest => items? fuel depth rest (item :: done)
      | ']' :: rest => return (.list (item :: done).reverse, rest)
      | _ => none

/-- The fields of a table in braces up to its end; `done` holds those before. -/
def fields? : (fuel depth : Nat) → Input → Table → Option (Setting × Input)
  | 0, _, _, _ => none
  | fuel + 1, depth, input, done => do
    match ← skipSpace? (input.length + 1) input with
    | '\x7d' :: rest => return (.table done.toSettings, rest)
    | input =>
      let (key, rest) ← key? (input.length + 1) input
      match rest with
      | '=' :: rest =>
        let (s, rest) ← value? fuel depth (skipBlanks rest)
        let done ← done.assign key s
        match ← skipSpace? (rest.length + 1) rest with
        | ',' :: rest => fields? fuel depth rest done
        | '\x7d' :: rest => return (.table done.toSettings, rest)
        | _ => none
      | _ => none

end

/-- The end of a line, in front of which a comment may stand. -/
def endOfLine? (input : Input) : Option Input := do
  match ← skipComment? (skipBlanks input) with
  | [] => return []
  | rest => newline? rest

/-- The document so far and the header that was opened last. -/
structure State where
  table : Table := []
  header : List String := []

/-- Reads what a line holds, up to its end. -/
def line? (s : State) (input : Input) : Option (State × Input) := do
  match skipBlanks input with
  | [] => return (s, [])
  | '[' :: '[' :: rest =>
    let (key, rest) ← key? (rest.length + 1) rest
    match rest with
    | ']' :: ']' :: rest => return (⟨← s.table.openElement key, key⟩, rest)
    | _ => none
  | '[' :: rest =>
    let (key, rest) ← key? (rest.length + 1) rest
    match rest with
    | ']' :: rest => return (⟨← s.table.openTable key, key⟩, rest)
    | _ => none
  | rest@(c :: _) =>
    if c = '#' ∨ (newline? rest).isSome then return (s, rest)
    let (key, rest) ← key? (rest.length + 1) rest
    match rest with
    | '=' :: rest =>
      let rest := skipBlanks rest
      let (value, rest) ← value? (2 * rest.length + 2) maxDepth rest
      return ({ s with table := ← s.table.assignIn s.header key value }, rest)
    | _ => none

/-- Reads line after line. -/
def lines? : (fuel : Nat) → State → Input → Option State
  | _, s, [] => some s
  | 0, _, _ => none
  | fuel + 1, s, input => do
    let (s, rest) ← line? s input
    lines? fuel s (← endOfLine? rest)

end Parser

/-- The settings of a document, in front of which a byte order mark may stand. -/
def parse? (text : String) : Option (List (String × Setting)) := do
  let input := match text.toList with
    | '\ufeff' :: rest => rest
    | all => all
  let s ← Parser.lines? (input.length + 1) {} input
  return s.table.toSettings

end ChainIndex.Toml
