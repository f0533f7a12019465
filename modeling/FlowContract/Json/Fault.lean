import FlowContract.Json.Symbol

/-!
What can be wrong with a text that should hold a document, and where.
-/

namespace FlowContract.Json

/-- The ways in which a text fails to be a document. -/
inductive Problem where
  | endInList
  | endInMapping
  | endInString
  | endInValue
  | colonExpected
  | commaOrListEndExpected
  | commaOrMappingEndExpected
  | literalExpected
  | valueExpected
  | keyNotString
  | invalidEscape
  | invalidNumber
  | numberOutOfRange
  | invalidCodePoint
  | controlCharacter
  | loneSurrogate
  | unfinishedSurrogatePair
  | trailingComma
  | trailingCharacters
  | nestedTooDeep
  deriving DecidableEq

def Problem.message : Problem → String
  | endInList => "EOF while parsing a list"
  | endInMapping => "EOF while parsing an object"
  | endInString => "EOF while parsing a string"
  | endInValue => "EOF while parsing a value"
  | colonExpected => "expected `:`"
  | commaOrListEndExpected => "expected `,` or `]`"
  | commaOrMappingEndExpected => "expected `,` or `\x7d`"
  | literalExpected => "expected ident"
  | valueExpected => "expected value"
  | keyNotString => "key must be a string"
  | invalidEscape => "invalid escape"
  | invalidNumber => "invalid number"
  | numberOutOfRange => "number out of range"
  | invalidCodePoint => "invalid unicode code point"
  | controlCharacter => "control character (\\u0000-\\u001F) found while parsing a string"
  | loneSurrogate => "lone leading surrogate in hex escape"
  | unfinishedSurrogatePair => "unexpected end of hex escape"
  | trailingComma => "trailing comma"
  | trailingCharacters => "trailing characters"
  | nestedTooDeep => "recursion limit exceeded"

/-- A problem and the number of bytes that had been looked at when it was noticed. -/
structure Fault where
  problem : Problem
  offset : Nat
  deriving DecidableEq

/-- A place where a text breaks off or goes wrong. What is reported depends on what the reader
there is doing. -/
structure Defect where
  /-- For a reader that takes the value. -/
  reading : Fault
  /-- For a reader that passes over the value. -/
  skipping : Fault
  /-- For a reader that has all it wants and expects the list to end. -/
  closing : Fault
  deriving DecidableEq

namespace Defect

/-- A defect that every reader reports in the same way. -/
def same (problem : Problem) (offset : Nat) : Defect :=
  ⟨⟨problem, offset⟩, ⟨problem, offset⟩, ⟨problem, offset⟩⟩

end Defect

def Position.describe (p : Position) : String :=
  " at line " ++ toString p.line ++ " column " ++ toString p.column

end FlowContract.Json
