import FlowContract.Decimal.Double

/-!
The shortest decimal that identifies a double: the fewest digits such that some decimal with so
many digits is nearer to this double than to any other, and among those decimals the nearest.
-/

namespace FlowContract.Decimal

/-- Significant decimal digits, without zeros at the end, and the power of ten of the first
one: digits `12` and exponent 3 make 1200. -/
structure Digits where
  significant : List Char
  exponent : Int
  deriving DecidableEq

/-- The decimal digits of a natural number, most significant first. -/
def digitsOf (n : Nat) : List Char := Nat.toDigits 10 n

/-- The power of ten of the first significant digit of a positive quotient. -/
def leadingExponent (num den : Nat) : Int :=
  if den ≤ num then (digitsOf (num / den)).length - 1
  else -((digitsOf ((den - 1) / num)).length : Int)

/-- The decimals that read back as a given double: those between two bounds, which are given as
quotients over one denominator. -/
structure Interval where
  low : Nat
  value : Nat
  high : Nat
  den : Nat
  /-- Whether the bounds themselves read back as the double. -/
  closed : Bool

namespace Interval

/-- The interval around a positive double. Below a power of two the gap is half as wide. -/
def around (x : Double) : Interval :=
  let gap := Nat.pow 2 x.shift
  let narrow := x.significand == Double.binade && 0 < x.shift
  { low := 4 * x.units - (if narrow then gap else 2 * gap)
    value := 4 * x.units
    high := 4 * x.units + 2 * gap
    den := 4 * Double.unitsPerOne
    closed := x.significand % 2 == 0 }

/-- Whether a quotient over the interval's denominator lies in the interval. -/
def contains (i : Interval) (scale n : Nat) : Bool :=
  if i.closed then i.low * scale ≤ n && n ≤ i.high * scale
  else i.low * scale < n && n < i.high * scale

/-- The decimal with the given number of digits that lies in the interval and is nearest to its
value: only the two neighbours of the value on that grid can be it. An exact tie goes to the even
digit. The result is the digits as a number and the power of ten of the last one. -/
def nearest? (i : Interval) (count : Nat) : Option (Nat × Int) :=
  let last : Int := leadingExponent i.value i.den + 1 - count
  let scale := Nat.pow 10 (-last).toNat
  let step := i.den * Nat.pow 10 last.toNat
  let below := i.value * scale / step
  let fits (n : Nat) : Bool := i.contains scale (n * step)
  let up := 2 * (i.value * scale - below * step)
  let chooseAbove := step < up || (step == up && below % 2 == 1)
  match fits below, fits (below + 1) with
  | false, false => none
  | true, false => some (below, last)
  | false, true => some (below + 1, last)
  | true, true => some (if chooseAbove then below + 1 else below, last)

end Interval

def dropTrailingZeros (digits : List Char) : List Char :=
  (digits.reverse.dropWhile (· == '0')).reverse

/-- The shortest digits of a positive double. Seventeen digits always suffice. -/
def shortest (x : Double) : Digits :=
  let interval := Interval.around x
  match (List.range 17).findSome? fun n => interval.nearest? (n + 1) with
  | some (digits, last) =>
    let written := digitsOf digits
    ⟨dropTrailingZeros written, last + written.length - 1⟩
  | none => ⟨['0'], 0⟩

end FlowContract.Decimal
