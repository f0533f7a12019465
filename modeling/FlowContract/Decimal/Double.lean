/-!
Finite binary floating-point numbers of 64 bits, as exact data: a sign and the rank of the
magnitude among the non-negative doubles. Arithmetic goes through natural numbers and rounds
once, to the nearest double and to the even one of two that are equally near.
-/

namespace FlowContract

/-- A finite double. The non-negative doubles in ascending order have the ranks 0, 1, 2, …; the
rank is also the number that the bits after the sign spell. -/
structure Double where
  negative : Bool
  rank : Nat
  finite : rank < 0x7ff0000000000000
  deriving DecidableEq

namespace Double

/-- Ranks in one binade: the doubles between two neighbouring powers of two. -/
def binade : Nat := 0x10000000000000

/-- The integer significand of a magnitude. -/
def significand (x : Double) : Nat :=
  if x.rank < binade then x.rank else binade + x.rank % binade

/-- How many times the significand is doubled to count units of 2^-1074. -/
def shift (x : Double) : Nat :=
  if x.rank < binade then 0 else x.rank / binade - 1

/-- How many units of 2^-1074 fit into one. -/
def unitsPerOne : Nat := Nat.pow 2 1074

/-- The magnitude in units of 2^-1074, the least positive double. -/
def units (x : Double) : Nat :=
  x.significand * Nat.pow 2 x.shift

def zero (negative : Bool) : Double := ⟨negative, 0, by decide⟩

instance : Inhabited Double := ⟨zero false⟩

def isZero (x : Double) : Bool := x.rank == 0

/-- Doubles are equal as numbers: zero has one value under two signs. -/
instance : BEq Double where
  beq x y := (x.isZero && y.isZero) || (x.negative == y.negative && x.rank == y.rank)

def neg (x : Double) : Double := { x with negative := !x.negative }

/-- The quotient of two natural numbers, rounded to the nearest integer; a half goes to the even
neighbour. -/
def roundHalfEven (num den : Nat) : Nat :=
  let whole := num / den
  let rest := num % den
  if 2 * rest < den then whole
  else if den < 2 * rest then whole + 1
  else whole + whole % 2

/-- The non-negative double nearest to a quotient, or nothing when that lies beyond the finite
doubles. Rounding up to a power of two runs into the next binade by itself. -/
def ofQuotient? (num den : Nat) : Option Double :=
  let whole := num * unitsPerOne / den
  let shift := Nat.log2 whole - 52
  let rank := shift * binade + roundHalfEven (num * unitsPerOne) (den * Nat.pow 2 shift)
  if finite : rank < 0x7ff0000000000000 then some ⟨false, rank, finite⟩ else none

def mul? (x y : Double) : Option Double :=
  ofQuotient? (x.units * y.units) (unitsPerOne * unitsPerOne)

def div? (x y : Double) : Option Double :=
  ofQuotient? x.units y.units

end Double

end FlowContract
