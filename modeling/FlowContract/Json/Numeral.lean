import FlowContract.Json.Fault
import FlowContract.Json.Number

/-!
Numerals: the form of a number in a text, and the number that it stands for. A numeral is scanned
before it is valued, so passing over a number checks its form alone.
-/

namespace FlowContract.Json

/-- The parts of a numeral, as digits in the order in which they are written. -/
structure Numeral where
  negative : Bool
  whole : List Nat
  fraction : List Nat
  /-- Whether the exponent is negative, and its digits. -/
  exponent : Option (Bool × List Nat)
  deriving DecidableEq

namespace Numeral

/-- The digits at the head of the input, and what follows them. -/
def digits : List Symbol → List Nat × List Symbol
  | [] => ([], [])
  | symbol :: rest =>
    match symbol.digit? with
    | some d => let (more, left) := digits rest; (d :: more, left)
    | none => ([], symbol :: rest)

/-- A scanned part of a text, with the place and the input behind it. -/
structure Scanned (α : Type) where
  part : α
  stop : Nat
  rest : List Symbol

/-- A numeral that ends where a digit has to follow. -/
def cutOff (offset : Nat) : Defect :=
  ⟨⟨.endInValue, offset⟩, ⟨.invalidNumber, offset⟩, ⟨.invalidNumber, offset⟩⟩

/-- The whole part: no digit stands behind a leading zero. -/
def scanWhole (offset : Nat) (input : List Symbol) : Except Defect (Scanned (List Nat)) :=
  match input with
  | [] => .error (cutOff offset)
  | _ :: _ =>
    match digits input with
    | ([], _) => .error (.same .invalidNumber (offset + 1))
    | (0 :: _ :: _, _) => .error (.same .invalidNumber (offset + 2))
    | (whole, rest) => .ok ⟨whole, offset + whole.length, rest⟩

/-- The fraction, if a point follows: at least one digit. -/
def scanFraction (offset : Nat) (input : List Symbol) : Except Defect (Scanned (List Nat)) :=
  match input with
  | symbol :: rest =>
    if symbol.is '.' then
      match digits rest with
      | ([], []) => .error (cutOff (offset + 1))
      | ([], _) => .error (.same .invalidNumber (offset + 2))
      | (fraction, left) => .ok ⟨fraction, offset + 1 + fraction.length, left⟩
    else .ok ⟨[], offset, input⟩
  | [] => .ok ⟨[], offset, []⟩

/-- The digits of an exponent: at least one. -/
def scanExponentDigits (negative : Bool) (offset : Nat) (input : List Symbol) :
    Except Defect (Scanned (Option (Bool × List Nat))) :=
  match input, digits input with
  | [], _ => .error (cutOff offset)
  | _, ([], _) => .error (.same .invalidNumber (offset + 1))
  | _, (exponent, left) => .ok ⟨some (negative, exponent), offset + exponent.length, left⟩

/-- The exponent, if its mark follows; it may have a sign of either kind. -/
def scanExponent (offset : Nat) (input : List Symbol) :
    Except Defect (Scanned (Option (Bool × List Nat))) :=
  match input with
  | symbol :: rest =>
    if symbol.is 'e' || symbol.is 'E' then
      match rest with
      | sign :: rest' =>
        if sign.is '-' then scanExponentDigits true (offset + 2) rest'
        else if sign.is '+' then scanExponentDigits false (offset + 2) rest'
        else scanExponentDigits false (offset + 1) rest
      | [] => scanExponentDigits false (offset + 1) []
    else .ok ⟨none, offset, input⟩
  | [] => .ok ⟨none, offset, []⟩

/-- A numeral at the head of the input, whose first symbol is a digit or a minus sign. -/
def scan (offset : Nat) (input : List Symbol) : Except Defect (Scanned Numeral) := do
  let negative := match input with
    | symbol :: _ => symbol.is '-'
    | [] => false
  let (offset, input) := if negative then (offset + 1, input.drop 1) else (offset, input)
  let whole ← scanWhole offset input
  let fraction ← scanFraction whole.stop whole.rest
  let exponent ← scanExponent fraction.stop fraction.rest
  pure ⟨⟨negative, whole.part, fraction.part, exponent.part⟩, exponent.stop, exponent.rest⟩

/-- How far a numeral's leading digits fit 64 bits: their value, and the digits left over. -/
def absorb (value : Nat) : List Nat → Nat × List Nat
  | [] => (value, [])
  | d :: rest =>
    if value * 10 + d < 0x10000000000000000 then absorb (value * 10 + d) rest
    else (value, d :: rest)

/-- The greatest exponent that is read as such. -/
def exponentLimit : Nat := 0x7fffffff

/-- The value of the digits of an exponent; past the limit, the number of digits looked at. -/
def exponentValue (value read : Nat) : List Nat → Except Nat Nat
  | [] => .ok value
  | d :: rest =>
    if value * 10 + d ≤ exponentLimit then exponentValue (value * 10 + d) (read + 1) rest
    else .error (read + 1)

/-- A power of ten as a double, which it is up to the 308th. -/
def powerOfTen (n : Nat) : Double := (Double.ofQuotient? (Nat.pow 10 n) 1).getD (.zero false)

/-- Divides by a power of ten. Powers that are no doubles are divided out in steps of 10^308;
after three of these every 64-bit significand is zero. -/
def scaleDown (x : Double) (n : Nat) : Double :=
  let divide (x : Double) (k : Nat) : Double := (x.div? (powerOfTen k)).getD (.zero false)
  let steps := (n - 1) / 308
  divide (Nat.repeat (divide · 308) (min steps 3) x) (min 308 (n - 308 * steps))

/-- A significand times a power of ten, each step rounded; nothing when it is beyond the
doubles. -/
def scaled? (significand : Nat) (exponent : Int) : Option Double := do
  let x ← Double.ofQuotient? significand 1
  if exponent < 0 then return scaleDown x exponent.natAbs
  else if exponent ≤ 308 then x.mul? (powerOfTen exponent.natAbs)
  else if significand = 0 then return x
  else none

/-- The integer with the sign of a numeral, where it fits one; minus zero does not. -/
def integer? (numeral : Numeral) (significand : Nat) : Option Number :=
  if numeral.negative then
    if significand = 0 then none else Number.ofInt? (-(significand : Int))
  else Number.ofInt? significand

/-- A magnitude with the sign of a numeral, `stop` being the place behind it; without a magnitude
the numeral is out of range. -/
def signed (numeral : Numeral) (stop : Nat) : Option Double → Except Fault Number
  | some x => .ok (.double (if numeral.negative then x.neg else x))
  | none => .error ⟨.numberOutOfRange, stop⟩

/-- The number that a numeral stands for, `stop` being the place behind it. Digits beyond 64 bits
only count for the magnitude. A numeral without fraction and exponent is an integer where it fits
one. -/
def read (numeral : Numeral) (stop : Nat) : Except Fault Number :=
  let (significand, left) := absorb 0 numeral.whole
  if numeral.fraction.isEmpty && numeral.exponent.isNone && left.isEmpty then
    (numeral.integer? significand).elim (numeral.signed stop (scaled? significand 0)) .ok
  else
    let (significand, unread) := absorb significand numeral.fraction
    let point : Int := left.length - (numeral.fraction.length - unread.length : Nat)
    match numeral.exponent with
    | none => numeral.signed stop (scaled? significand point)
    | some (negative, digits) =>
      match exponentValue 0 0 digits with
      | .ok e =>
        numeral.signed stop (scaled? significand (if negative then point - e else point + e))
      | .error looked =>
        if significand ≠ 0 && !negative then
          .error ⟨.numberOutOfRange, stop - digits.length + looked⟩
        else numeral.signed stop (some (.zero false))

end Numeral

end FlowContract.Json
