/-!
The input of the reader: the bytes of a text, taken together to characters where they spell one.
Bytes that belong to no character stay in the input, since they are only wrong inside a string.
-/

namespace FlowContract.Json

/-- One unit of input. -/
inductive Symbol where
  | char (c : Char)
  /-- A byte that is no part of a well-formed character. -/
  | stray (byte : UInt8)
  deriving DecidableEq

namespace Symbol

/-- How many bytes of the input a symbol takes. -/
def width : Symbol → Nat
  | .char c => c.utf8Size
  | .stray _ => 1

def widths : List Symbol → Nat
  | [] => 0
  | symbol :: rest => symbol.width + widths rest

def ofString (s : String) : List Symbol := s.toList.map .char

/-- The symbols of bytes. A byte at which no character begins stands alone, and reading goes on
with the next one. -/
def ofBytes (bytes : ByteArray) : List Symbol :=
  go bytes.size 0
where
  go : Nat → Nat → List Symbol
    | 0, _ => []
    | fuel + 1, i =>
      if h : i < bytes.size then
        match bytes.utf8DecodeChar? i with
        | some c => .char c :: go fuel (i + c.utf8Size)
        | none => .stray bytes[i] :: go fuel (i + 1)
      else []

def is (symbol : Symbol) (c : Char) : Bool := symbol == .char c

def digit? : Symbol → Option Nat
  | .char c => if c.isDigit then some (c.toNat - '0'.toNat) else none
  | .stray _ => none

/-- The value of a digit of base sixteen, in either case. -/
def hexDigit? : Symbol → Option Nat
  | .char c =>
    if c.isDigit then some (c.toNat - '0'.toNat)
    else if 'a' ≤ c && c ≤ 'f' then some (c.toNat - 'a'.toNat + 10)
    else if 'A' ≤ c && c ≤ 'F' then some (c.toNat - 'A'.toNat + 10)
    else none
  | .stray _ => none

/-- The blanks between the parts of a text: space, tab, line feed and carriage return. -/
def isBlank : Symbol → Bool
  | .char c => c == ' ' || c == '\n' || c == '\t' || c == '\r'
  | .stray _ => false

end Symbol

/-- A place in a text, as people count: lines from one, and the bytes passed on the line. -/
structure Position where
  line : Nat
  column : Nat
  deriving DecidableEq

namespace Position

/-- The place after a number of bytes. -/
def after (offset : Nat) (symbols : List Symbol) : Position :=
  go offset ⟨1, 0⟩ symbols
where
  go (left : Nat) (here : Position) : List Symbol → Position
    | [] => here
    | symbol :: rest =>
      if left = 0 then here
      else if symbol.is '\n' then go (left - 1) ⟨here.line + 1, 0⟩ rest
      else go (left - symbol.width) ⟨here.line, here.column + min left symbol.width⟩ rest

end Position

end FlowContract.Json
