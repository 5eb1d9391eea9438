import ChainIndex.Decimal
import ChainIndex.Settings.Basic

/-!
# Words of TOML

* `Word.toSetting?`: the value of a word that stands without quotes: a truth value, an integer, a float, or
  a date or time, which is kept as text in its usual form.
-/

namespace ChainIndex.Toml

/-- What is left to read. -/
abbrev Input := List Char

/-- The number of a digit below 36, whatever the base. -/
def digit? (c : Char) : Option Nat :=
  if '0' ≤ c ∧ c ≤ '9' then some (c.toNat - 48)
  else if 'a' ≤ c ∧ c ≤ 'z' then some (c.toNat - 87)
  else if 'A' ≤ c ∧ c ≤ 'Z' then some (c.toNat - 55)
  else none

/-- The number of a digit of a base. -/
def digitOf? (base : Nat) (c : Char) : Option Nat := (digit? c).filter (· < base)

namespace Word

/-- Digits, between which single underscores may stand. -/
def digits? (base : Nat) : Input → Option (List Nat)
  | [] => none
  | [c] => do return [← digitOf? base c]
  | c :: '_' :: rest => do return (← digitOf? base c) :: (← digits? base rest)
  | c :: rest => do return (← digitOf? base c) :: (← digits? base rest)

/-- The number that digits spell. -/
def ofDigits (base : Nat) (digits : List Nat) : Nat := digits.foldl (fun n d => base * n + d) 0

/-- Decimal digits without a needless zero in front. -/
def whole? (word : Input) : Option (List Nat) := do
  let digits ← digits? 10 word
  if 1 < digits.length ∧ digits.head? = some 0 then none else return digits

/-- The sign of a number and what follows it. -/
def sign (word : Input) : Bool × Input :=
  match word with
  | '-' :: rest => (true, rest)
  | '+' :: rest => (false, rest)
  | _ => (false, word)

/-- An integer of 64 bits. -/
def inRange? (i : Int) : Option Setting :=
  if -0x8000000000000000 ≤ i ∧ i < 0x8000000000000000 then some (.int i) else none

/-- An integer: decimal with a sign, or to another base without one. -/
def integer? (word : Input) : Option Setting := do
  match word with
  | '0' :: 'x' :: rest => inRange? (ofDigits 16 (← digits? 16 rest))
  | '0' :: 'o' :: rest => inRange? (ofDigits 8 (← digits? 8 rest))
  | '0' :: 'b' :: rest => inRange? (ofDigits 2 (← digits? 2 rest))
  | _ =>
    let (negative, rest) := sign word
    let n := ofDigits 10 (← whole? rest)
    inRange? (if negative then -(n : Int) else n)

/-- A word cut at the first character of a kind, which is dropped. -/
def cut (isMark : Char → Bool) (word : Input) : Input × Option Input :=
  match word.dropWhile (!isMark ·) with
  | [] => (word, none)
  | _ :: rest => (word.takeWhile (!isMark ·), some rest)

/-- A float: with a fraction, an exponent or both; or infinite, or no number. -/
def float? (word : Input) : Option Setting := do
  let (negative, rest) := sign word
  let signed (f : Float) : Setting := .float (if negative then -f else f)
  if rest = "inf".toList then return signed (1.0 / 0.0)
  if rest = "nan".toList then return signed (0.0 / 0.0)
  let (mantissa, exponent) := cut (fun c => c = 'e' || c = 'E') rest
  let (whole, fraction) := cut (· = '.') mantissa
  if fraction.isNone ∧ exponent.isNone then none
  let whole ← whole? whole
  let fraction ← match fraction with
    | some digits => digits? 10 digits
    | none => some []
  let power ← match exponent with
    | some word =>
      let (negative, word) := sign word
      let n := ofDigits 10 (← digits? 10 word)
      some (if negative then -(n : Int) else n)
    | none => some 0
  return signed (← Decimal.toFloat? (ofDigits 10 (whole ++ fraction)) (power - fraction.length))

/-- A number of exactly `count` digits in front of a word, below `bound`. -/
def field? (count bound : Nat) (word : Input) : Option (Nat × Input) := do
  if word.length < count then none
  let digits ← (word.take count).mapM (digitOf? 10)
  let n := ofDigits 10 digits
  if n < bound then return (n, word.drop count) else none

/-- The days of a month. -/
def daysOf (year month : Nat) : Nat :=
  if month = 2 then
    if year % 4 = 0 ∧ (year % 100 ≠ 0 ∨ year % 400 = 0) then 29 else 28
  else if [4, 6, 9, 11].contains month then 30
  else 31

/-- Passes over one of some characters. -/
def mark? (marks : List Char) : Input → Option Input
  | c :: rest => if marks.contains c then some rest else none
  | [] => none

/-- A date, of ten characters. -/
def date? (word : Input) : Option (String × Input) := do
  let (year, rest) ← field? 4 10000 word
  let (month, rest) ← field? 2 13 (← mark? ['-'] rest)
  let (day, rest) ← field? 2 32 (← mark? ['-'] rest)
  if month = 0 ∨ day = 0 ∨ daysOf year month < day then none
  return (String.ofList (word.take 10), rest)

/-- The fraction of a second: nine digits count, and zeros at the end are dropped. -/
def fraction? : Input → Option (String × Input)
  | '.' :: rest =>
    let digits := rest.takeWhile Char.isDigit
    if digits.isEmpty then none
    else
      let kept := ((digits.take 9).reverse.dropWhile (· = '0')).reverse
      let text := if kept.isEmpty then "" else "." ++ String.ofList kept
      some (text, rest.dropWhile Char.isDigit)
  | rest => some ("", rest)

/-- A time of day; the seconds may be left out. -/
def time? (word : Input) : Option (String × Input) := do
  let (_, rest) ← field? 2 24 word
  let (_, rest) ← field? 2 60 (← mark? [':'] rest)
  match mark? [':'] rest with
  | none => return (String.ofList (word.take 5), rest)
  | some rest =>
    let (_, rest) ← field? 2 61 rest
    let (fraction, rest) ← fraction? rest
    return (String.ofList (word.take 8) ++ fraction, rest)

/-- The distance from universal time, up to the end of a word; there may be none. -/
def offset? : Input → Option String
  | [] => some ""
  | ['Z'] | ['z'] => some "Z"
  | c :: rest => do
    if c ≠ '+' ∧ c ≠ '-' then none
    let (hours, behind) ← field? 2 24 rest
    let (minutes, behind) ← field? 2 60 (← mark? [':'] behind)
    if !behind.isEmpty then none
    let mark := if hours = 0 ∧ minutes = 0 then "+" else c.toString
    return mark ++ String.ofList rest

/-- A date, a time, or both. -/
def moment? (word : Input) : Option Setting := do
  match date? word with
  | some (date, []) => return .text date
  | some (date, rest) =>
    let (time, rest) ← time? (← mark? ['T', 't', ' '] rest)
    return .text (date ++ "T" ++ time ++ (← offset? rest))
  | none =>
    let (time, rest) ← time? word
    if rest.isEmpty then return .text time else none

/-- The value of a word. -/
def toSetting? (word : Input) : Option Setting :=
  if word = "true".toList then some (.bool true)
  else if word = "false".toList then some (.bool false)
  else integer? word <|> float? word <|> moment? word

end Word

end ChainIndex.Toml
