import FlowContract.Decimal.Notation

/-!
The numbers of documents: integers of at most 64 bits, and doubles for all others. The two kinds
never equal each other, even where they stand for the same quantity.
-/

namespace FlowContract.Json

inductive Number where
  /-- An integer that fits 64 bits, unsigned or signed. -/
  | integer (value : Int) (least : -0x8000000000000000 ≤ value)
    (greatest : value < 0x10000000000000000)
  | double (value : Double)
  deriving DecidableEq

namespace Number

/-- An integer as a number, if it fits. -/
def ofInt? (value : Int) : Option Number :=
  if least : -0x8000000000000000 ≤ value then
    if greatest : value < 0x10000000000000000 then some (.integer value least greatest) else none
  else none

/-- A count that fits 64 bits; larger ones stop at the greatest such number. -/
def ofNat (n : Nat) : Number :=
  .integer (min n 0xffffffffffffffff) (by omega) (by omega)

/-- Equality of numbers: integers among themselves, doubles as numbers, so that the two zeros
are equal. -/
instance : BEq Number where
  beq
    | .integer a _ _, .integer b _ _ => a == b
    | .double a, .double b => a == b
    | _, _ => false

def write : Number → String
  | .integer value _ _ => toString value
  | .double value => Decimal.Notation.document.write value

end Number

end FlowContract.Json
