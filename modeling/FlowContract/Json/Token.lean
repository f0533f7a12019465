import FlowContract.Json.Numeral
import FlowContract.Json.Piece
import FlowContract.Json.Value

/-!
Tokens: a text cut at its brackets, marks, literals, numerals and strings, with blanks left out.
Cutting needs no knowledge of what encloses a token and goes on behind a value that cannot be
read, as long as its end is known.
-/

namespace FlowContract.Json

inductive Lexeme where
  | beginList
  | endList
  | beginMapping
  | endMapping
  | comma
  | colon
  /-- A value without members: what reading it gives, and whether it can be passed over. Where it
  cannot, the tokens end. -/
  | scalar (isString : Bool) (reading : Except Fault Value) (skipping : Except Fault Unit)
  /-- A symbol with which nothing begins. -/
  | other

/-- A token, the place where it begins and the place behind it. -/
structure Token where
  start : Nat
  stop : Nat
  lexeme : Lexeme

namespace Token

/-- Whether a token is a given closing bracket. -/
def closesList (t : Token) : Bool := t.lexeme matches .endList

def closesMapping (t : Token) : Bool := t.lexeme matches .endMapping

/-- The rest of a word whose first letter has been passed: all letters have to follow. -/
def scanWord (offset : Nat) : List Char → List Symbol → Except Fault (Nat × List Symbol)
  | [], input => .ok (offset, input)
  | _ :: _, [] => .error ⟨.endInValue, offset⟩
  | c :: word, symbol :: input =>
    if symbol.is c then scanWord (offset + 1) word input
    else .error ⟨.literalExpected, offset + 1⟩

def mark (offset : Nat) (lexeme : Lexeme) (rest : List Symbol) : Token × List Symbol :=
  (⟨offset, offset + 1, lexeme⟩, rest)

/-- A word that stands for a value. -/
def word (offset : Nat) (letters : String) (value : Value) (rest : List Symbol) :
    Token × List Symbol :=
  match scanWord (offset + 1) letters.toList rest with
  | .ok (stop, rest) => (⟨offset, stop, .scalar false (.ok value) (.ok ())⟩, rest)
  | .error fault => (⟨offset, offset, .scalar false (.error fault) (.error fault)⟩, [])

/-- A string literal whose opening delimiter has been passed. -/
def string (offset : Nat) (rest : List Symbol) : Token × List Symbol :=
  let (pieces, left) := Piece.scan (offset + 1) rest
  let stop := (pieces.getLast?.map Piece.seen).getD offset
  let reading := (Piece.read none pieces).map fun chars => Value.string (String.ofList chars)
  let skipping := Piece.skip pieces
  (⟨offset, stop, .scalar true reading skipping⟩, if skipping.isOk then left else [])

def numeral (offset : Nat) (input : List Symbol) : Token × List Symbol :=
  match Numeral.scan offset input with
  | .ok scanned =>
    let reading := (scanned.part.read scanned.stop).map Value.number
    (⟨offset, scanned.stop, .scalar false reading (.ok ())⟩, scanned.rest)
  | .error defect =>
    (⟨offset, offset, .scalar false (.error defect.reading) (.error defect.skipping)⟩, [])

/-- The token that begins with a symbol which is not blank, and the input behind it. -/
def scan (offset : Nat) (first : Symbol) (rest : List Symbol) : Token × List Symbol :=
  if first.is '[' then mark offset .beginList rest
  else if first.is ']' then mark offset .endList rest
  else if first.is '\x7b' then mark offset .beginMapping rest
  else if first.is '\x7d' then mark offset .endMapping rest
  else if first.is ',' then mark offset .comma rest
  else if first.is ':' then mark offset .colon rest
  else if first.is '"' then string offset rest
  else if first.is 'n' then word offset "ull" .null rest
  else if first.is 't' then word offset "rue" (.boolean true) rest
  else if first.is 'f' then word offset "alse" (.boolean false) rest
  else if first.is '-' || first.digit?.isSome then numeral offset (first :: rest)
  else (⟨offset, offset + first.width, .other⟩, rest)

/-- The tokens of an input. Every token takes at least one symbol, so the number of symbols bounds
the number of steps. -/
def scanAll (fuel offset : Nat) (input : List Symbol) : List Token :=
  match fuel, input with
  | 0, _ | _, [] => []
  | fuel + 1, symbol :: rest =>
    if symbol.isBlank then scanAll fuel (offset + 1) rest
    else
      let (token, left) := scan offset symbol rest
      token :: scanAll fuel token.stop left

def ofSymbols (input : List Symbol) : List Token :=
  scanAll input.length 0 input

end Token

end FlowContract.Json
