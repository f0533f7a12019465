import FlowContract.Decimal.Shortest

/-!
How a double is written: the shortest digits, with a decimal point where the number is of middling
size and with a power of ten elsewhere.
-/

namespace FlowContract.Decimal

structure Notation where
  /-- The least power of ten of a first digit that is written positionally. -/
  leastPositional : Int
  /-- The greatest power of ten of a first digit that is written positionally. -/
  greatestPositional : Int
  /-- What follows a whole number in positional writing. -/
  wholeMark : String
  /-- What stands between digits and power of ten. -/
  exponentMark : String

namespace Notation

/-- Numbers in documents are positional from 0.00001 up to, but not including, 10^16, and always
show a point there; a power of ten carries its sign. -/
def document : Notation := ⟨-5, 15, ".0", "e"⟩

/-- Digits with a point placed by the power of ten of the first digit. -/
def positional (form : Notation) (digits : List Char) (exponent : Int) : String :=
  if exponent < 0 then
    "0." ++ String.ofList (List.replicate ((-exponent).toNat - 1) '0' ++ digits)
  else
    let places := exponent.toNat + 1
    if digits.length ≤ places then
      String.ofList (digits ++ List.replicate (places - digits.length) '0') ++ form.wholeMark
    else
      String.ofList (digits.take places) ++ "." ++ String.ofList (digits.drop places)

/-- Digits with a point after the first one, and the power of ten behind. -/
def scientific (form : Notation) (digits : List Char) (exponent : Int) : String :=
  let fraction := digits.drop 1
  let point := if fraction.isEmpty then "" else "."
  let sign := if exponent < 0 then "-" else "+"
  String.ofList (digits.take 1) ++ point ++ String.ofList fraction ++ form.exponentMark ++ sign
    ++ toString exponent.natAbs

def magnitude (form : Notation) (x : Double) : String :=
  if x.isZero then "0" ++ form.wholeMark
  else
    let digits := shortest x
    if form.leastPositional ≤ digits.exponent && digits.exponent ≤ form.greatestPositional then
      form.positional digits.significant digits.exponent
    else form.scientific digits.significant digits.exponent

def write (form : Notation) (x : Double) : String :=
  (if x.negative then "-" else "") ++ form.magnitude x

end Notation

end FlowContract.Decimal
