import ChainIndex.Json.Basic

/-!
# Reading JSON

* `Json.parse?`: the value of a JSON text (RFC 8259), or nothing.

Containers nest at most 127 deep. A repeated field of an object counts once, with its last value.
Numbers with a fraction or an exponent, whole ones too large for 64 bits, and minus zero are doubles:
the leading digits that fit 64 bits, scaled by one power of ten. A number beyond the doubles is refused.
-/

namespace ChainIndex.Json.Parser

/-- What is left to read. -/
abbrev Input := List Char

/-- The four blanks of JSON. -/
def isBlank (c : Char) : Bool := c == ' ' || c == '\t' || c == '\n' || c == '\r'

/-- Passes over blanks. -/
def skipBlanks (input : Input) : Input := input.dropWhile isBlank

/-- The number of a decimal digit. -/
def digit? (c : Char) : Option Nat :=
  if '0' ≤ c ∧ c ≤ '9' then some (c.toNat - 48) else none

/-- The number of a hexadecimal digit. -/
def hexDigit? (c : Char) : Option Nat :=
  if '0' ≤ c ∧ c ≤ '9' then some (c.toNat - 48)
  else if 'a' ≤ c ∧ c ≤ 'f' then some (c.toNat - 87)
  else if 'A' ≤ c ∧ c ≤ 'F' then some (c.toNat - 55)
  else none

/-- Four hexadecimal digits. -/
def unit? : Input → Option (Nat × Input)
  | a :: b :: c :: d :: rest => do
    let n := 16 * (16 * (16 * (← hexDigit? a) + (← hexDigit? b)) + (← hexDigit? c)) + (← hexDigit? d)
    return (n, rest)
  | _ => none

/-- The character of a `\u` escape; the two halves of a surrogate pair must stand together. -/
def unicodeEscape? (input : Input) : Option (Char × Input) := do
  let (high, rest) ← unit? input
  if 0xdc00 ≤ high ∧ high ≤ 0xdfff then none
  else if 0xd800 ≤ high ∧ high ≤ 0xdbff then
    match rest with
    | '\\' :: 'u' :: rest =>
      let (low, rest) ← unit? rest
      if 0xdc00 ≤ low ∧ low ≤ 0xdfff then
        return (Char.ofNat (0x10000 + (high - 0xd800) * 0x400 + (low - 0xdc00)), rest)
      else none
    | _ => none
  else return (Char.ofNat high, rest)

/-- The rest of a text behind its opening quote; `done` holds the characters so far, last first. -/
def string? : Nat → Input → List Char → Option (String × Input)
  | 0, _, _ => none
  | fuel + 1, input, done =>
    match input with
    | [] => none
    | '"' :: rest => some (String.ofList done.reverse, rest)
    | '\\' :: 'u' :: rest => do
      let (c, rest) ← unicodeEscape? rest
      string? fuel rest (c :: done)
    | '\\' :: c :: rest =>
      if c = '"' ∨ c = '\\' ∨ c = '/' then string? fuel rest (c :: done)
      else if c = 'b' then string? fuel rest (Char.ofNat 8 :: done)
      else if c = 'f' then string? fuel rest (Char.ofNat 12 :: done)
      else if c = 'n' then string? fuel rest ('\n' :: done)
      else if c = 'r' then string? fuel rest ('\r' :: done)
      else if c = 't' then string? fuel rest ('\t' :: done)
      else none
    | c :: rest => if c.toNat < 0x20 then none else string? fuel rest (c :: done)

/-- Digits appended to a number as long as it stays below 2^64; how many were dropped behind; and the
rest. -/
def digits (n dropped : Nat) : Input → Nat × Nat × Input
  | [] => (n, dropped, [])
  | c :: rest =>
    match digit? c with
    | none => (n, dropped, c :: rest)
    | some d =>
      if dropped = 0 ∧ 10 * n + d < UInt64.size then digits (10 * n + d) 0 rest
      else digits n (dropped + 1) rest

/-- Fraction digits appended to a number as long as it stays below 2^64, and how many were. -/
def fraction (n used : Nat) : Input → Nat × Nat × Input
  | [] => (n, used, [])
  | c :: rest =>
    match digit? c with
    | none => (n, used, c :: rest)
    | some d =>
      if 10 * n + d < UInt64.size then fraction (10 * n + d) (used + 1) rest
      else (n, used, rest.dropWhile fun c => (digit? c).isSome)

/-- The power of ten with an exponent up to 308. -/
def powerOfTen (k : Nat) : Float := Float.ofScientific 1 false k

/-- A number scaled by a power of ten, in steps of at most 10^308; nothing if it leaves the doubles. -/
def scale? : Nat → Float → Int → Option Float
  | 0, _, _ => none
  | fuel + 1, f, e =>
    if e.natAbs ≤ 308 then
      if 0 ≤ e then
        let g := f * powerOfTen e.natAbs
        if g.isInf then none else some g
      else some (f / powerOfTen e.natAbs)
    else if f == 0.0 then some f
    else if 0 ≤ e then none
    else scale? fuel (f / powerOfTen 308) (e + 308)

/-- A double from its digits, exponent and sign. An exponent below -1000 makes zero. -/
def double? (negative : Bool) (n : Nat) (e : Int) : Option Json := do
  let f ← if e < -1000 then some 0.0 else scale? 8 (Float.ofNat n) e
  return .float (if negative then -f else f)

/-- The exponent behind its letter, or nothing if it has no digit. -/
def exponent? (input : Input) : Option (Int × Input) :=
  let (negative, input) :=
    match input with
    | '+' :: rest => (false, rest)
    | '-' :: rest => (true, rest)
    | _ => (false, input)
  match input with
  | c :: rest =>
    if (digit? c).isSome then
      let run := (c :: rest).takeWhile fun c => (digit? c).isSome
      let n := run.foldl (fun n c => 10 * n + (digit? c).getD 0) 0
      some (if negative then -(n : Int) else n, rest.dropWhile fun c => (digit? c).isSome)
    else none
  | [] => none

/-- What follows the whole part of a number. -/
def numberTail? (negative : Bool) (n dropped : Nat) (input : Input) : Option (Json × Input) := do
  match input with
  | '.' :: c :: rest =>
    if (digit? c).isNone then none
    let (n, used, rest) :=
      if dropped = 0 then fraction n 0 (c :: rest)
      else (n, 0, rest.dropWhile fun c => (digit? c).isSome)
    let e : Int := (dropped : Int) - used
    match rest with
    | 'e' :: rest | 'E' :: rest =>
      let (e', rest) ← exponent? rest
      return (← double? negative n (e + e'), rest)
    | _ => return (← double? negative n e, rest)
  | '.' :: [] => none
  | 'e' :: rest | 'E' :: rest =>
    let (e, rest) ← exponent? rest
    return (← double? negative n (dropped + e), rest)
  | _ =>
    if dropped ≠ 0 then return (← double? negative n dropped, input)
    else if ¬ negative then return (.int n, input)
    else if n = 0 ∨ 0x8000000000000000 < n then return (.float (-(Float.ofNat n)), input)
    else return (.int (-(n : Int)), input)

/-- A number: no leading zero, no leading plus. -/
def number? (input : Input) : Option (Json × Input) :=
  let (negative, input) :=
    match input with
    | '-' :: rest => (true, rest)
    | _ => (false, input)
  match input with
  | '0' :: c :: rest => if (digit? c).isSome then none else numberTail? negative 0 0 (c :: rest)
  | '0' :: [] => numberTail? negative 0 0 []
  | c :: rest =>
    if (digit? c).isSome then
      let (n, dropped, rest) := digits 0 0 (c :: rest)
      numberTail? negative n dropped rest
    else none
  | [] => none

mutual

/-- A value, after blanks. -/
def value? : (fuel depth : Nat) → Input → Option (Json × Input)
  | 0, _, _ => none
  | fuel + 1, depth, input =>
    match skipBlanks input with
    | '"' :: rest => do
      let (s, rest) ← string? (rest.length + 1) rest []
      return (.str s, rest)
    | '[' :: rest =>
      match depth with
      | 0 => none
      | depth + 1 =>
        match skipBlanks rest with
        | ']' :: rest => some (.arr [], rest)
        | rest => items? fuel depth rest []
    | '\x7b' :: rest =>
      match depth with
      | 0 => none
      | depth + 1 =>
        match skipBlanks rest with
        | '\x7d' :: rest => some (.obj [], rest)
        | rest => fields? fuel depth rest []
    | 'n' :: 'u' :: 'l' :: 'l' :: rest => some (.null, rest)
    | 't' :: 'r' :: 'u' :: 'e' :: rest => some (.bool true, rest)
    | 'f' :: 'a' :: 'l' :: 's' :: 'e' :: rest => some (.bool false, rest)
    | rest => number? rest

/-- The items of an array up to its end; `done` holds those before, last first. -/
def items? : (fuel depth : Nat) → Input → List Json → Option (Json × Input)
  | 0, _, _, _ => none
  | fuel + 1, depth, input, done => do
    let (item, rest) ← value? fuel depth input
    match skipBlanks rest with
    | ',' :: rest => items? fuel depth rest (item :: done)
    | ']' :: rest => return (.arr (item :: done).reverse, rest)
    | _ => none

/-- The fields of an object up to its end. -/
def fields? : (fuel depth : Nat) → Input → List (String × Json) → Option (Json × Input)
  | 0, _, _, _ => none
  | fuel + 1, depth, input, done =>
    match skipBlanks input with
    | '"' :: rest => do
      let (name, rest) ← string? (rest.length + 1) rest []
      match skipBlanks rest with
      | ':' :: rest =>
        let (value, rest) ← value? fuel depth rest
        let done := setField name value done
        match skipBlanks rest with
        | ',' :: rest => fields? fuel depth rest done
        | '\x7d' :: rest => return (.obj done, rest)
        | _ => none
      | _ => none
    | _ => none

end

end Parser

/-- The value of a JSON text. -/
def parse? (text : String) : Option Json := do
  let input := text.toList
  let (value, rest) ← Parser.value? (2 * input.length + 2) 127 input
  if (Parser.skipBlanks rest).isEmpty then return value else none

end ChainIndex.Json
