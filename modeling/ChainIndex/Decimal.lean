/-!
# Decimals and doubles

* `Decimal.shortest`: the digits and the exponent of the shortest decimal that reads back as a given
  finite binary number; of several the nearest, and of two equally near ones the even one.
* `Decimal.toFloat?`: the double nearest to a decimal, or nothing if it lies beyond the doubles.

A positive finite number is taken apart into `m * 2 ^ q`. The reals that round to it form an interval
around it, with its ends if `m` is even. For one digit, two digits and so on, the two neighbours of the
number on that decimal grid are tested in exact arithmetic; seventeen digits always suffice.
-/

namespace ChainIndex.Decimal

/-- A positive number `digits * 10 ^ exponent`. -/
structure Scaled where
  digits : Nat
  exponent : Int
deriving DecidableEq, Repr

/-- A finite positive binary number `mantissa * 2 ^ exponent`; `isEdge` if the next smaller one is only
half as far away as the next larger one. -/
structure Binary where
  mantissa : Nat
  exponent : Int
  isEdge : Bool
deriving DecidableEq, Repr

/-- The parts of a finite double, without its sign. -/
def Binary.ofBits (bits : UInt64) : Binary :=
  let fraction : Nat := bits.toNat % 0x10000000000000
  let biased : Nat := bits.toNat / 0x10000000000000 % 2048
  if biased = 0 then ⟨fraction, -1074, false⟩
  else ⟨0x10000000000000 + fraction, (biased : Int) - 1075, fraction == 0 && 1 < biased⟩

/-- The power of two and the power of ten that scale by `2 ^ a * 10 ^ b` as a quotient. -/
def ratio (a b : Int) : Nat × Nat :=
  (Nat.pow 2 a.toNat * Nat.pow 10 b.toNat, Nat.pow 2 (-a).toNat * Nat.pow 10 (-b).toNat)

/-- Whether `digits * 10 ^ e` rounds to the number: four times the distance is compared with four times
the half gap on that side. -/
def roundsTo (x : Binary) (digits : Nat) (e : Int) : Bool :=
  -- both sides multiplied by `den`: `digits` against `mantissa * num`
  let (num, den) := ratio x.exponent (-e)
  let point := 4 * digits * den
  let centre := 4 * x.mantissa * num
  let above := 2 * num
  let below := if x.isEdge then num else 2 * num
  if x.mantissa % 2 = 0 then centre ≤ point + below && point ≤ centre + above
  else centre < point + below && point < centre + above

/-- The neighbours of the number on the grid of `10 ^ e`, the nearer one first. -/
def neighbours (x : Binary) (e : Int) : List Nat :=
  let (num, den) := ratio x.exponent (-e)
  let lower := x.mantissa * num / den
  let twice := 2 * (x.mantissa * num % den)
  if twice < den || (twice = den && lower % 2 = 0) then [lower, lower + 1] else [lower + 1, lower]

/-- The number of decimal digits of a number. -/
def digitCount (n : Nat) : Nat := (Nat.toDigits 10 n).length

/-- The exponent `k` for which the number lies in `10 ^ k ≤ x < 10 ^ (k + 1)`. -/
def magnitude (x : Binary) : Int :=
  let (num, den) := ratio x.exponent 0
  let scaled := x.mantissa * num
  if den ≤ scaled then (digitCount (scaled / den) : Int) - 1
  else
    -- the first power of ten that lifts the number to one or more
    match (List.range 400).find? (fun k => den ≤ scaled * Nat.pow 10 k) with
    | some k => -(k : Int)
    | none => -400

/-- Drops trailing zeros of the digits, at most `fuel` of them. -/
def trim : Nat → Scaled → Scaled
  | 0, s => s
  | fuel + 1, s =>
    if s.digits ≠ 0 ∧ s.digits % 10 = 0 then trim fuel ⟨s.digits / 10, s.exponent + 1⟩ else s

/-- Tries grids of more and more digits. -/
def search (x : Binary) (k : Int) : Nat → Nat → Scaled
  | 0, count => ⟨(neighbours x (k + 1 - count)).headD 0, k + 1 - count⟩
  | fuel + 1, count =>
    let e := k + 1 - count
    match (neighbours x e).find? fun digits => digits != 0 && roundsTo x digits e with
    | some digits => trim 20 ⟨digits, e⟩
    | none => search x k fuel (count + 1)

/-- The shortest decimal of a positive finite number. -/
def shortest (x : Binary) : Scaled := search x (magnitude x) 17 1

/-- Places the decimal point of digits without an exponent: `d.ddd`, `ddd` or `0.00ddd`. -/
def positional (s : Scaled) : String :=
  let digits := toString s.digits
  if 0 ≤ s.exponent then digits ++ String.ofList (List.replicate s.exponent.toNat '0')
  else
    let places := (-s.exponent).toNat
    let padded := List.replicate (places + 1 - digits.length) '0' ++ digits.toList
    let whole := padded.length - places
    String.ofList (padded.take whole) ++ "." ++ String.ofList (padded.drop whole)

/-- Whether the bits have the sign of a negative number. -/
def isNegative (f : Float) : Bool := f.toBits.toNat / 0x8000000000000000 = 1

/-- A double as plain digits, never with an exponent. -/
def plainText (f : Float) : String :=
  if f.isNaN then "NaN"
  else
    let sign := if isNegative f then "-" else ""
    if f.isInf then sign ++ "inf"
    else if f == 0.0 then sign ++ "0"
    else sign ++ positional (shortest (Binary.ofBits f.toBits))

/-- A double as JSON text: a fraction always shown, and an exponent from 10^16 up and below 10^-5. -/
def jsonText (f : Float) : String :=
  let sign := if isNegative f then "-" else ""
  if f == 0.0 then sign ++ "0.0"
  else
    let s := shortest (Binary.ofBits f.toBits)
    let digits := toString s.digits
    let top := (digits.length : Int) + s.exponent
    if 0 ≤ s.exponent && top ≤ 16 then sign ++ positional s ++ ".0"
    else if -5 < top && top ≤ 16 then sign ++ positional s
    else
      let fraction := if digits.length = 1 then "" else "." ++ String.ofList (digits.toList.drop 1)
      sign ++ String.ofList (digits.toList.take 1) ++ fraction ++ "e" ++ toString (top - 1)

/-- The double nearest to `digits * 10 ^ exponent`, without a sign. Decimals that are sure to be too large or
too small are not worked out. -/
def toFloat? (digits : Nat) (exponent : Int) : Option Float :=
  let top : Int := (Nat.toDigits 10 digits).length + exponent
  if digits = 0 ∨ top < -400 then some 0.0
  else if 400 < top then none
  else
    let f := Float.ofScientific digits (decide (exponent < 0)) exponent.natAbs
    if f.isInf then none else some f

end ChainIndex.Decimal
