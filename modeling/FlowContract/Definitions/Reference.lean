import FlowContract.Json.Record
import FlowContract.Shape.Check

/-!
References from one definition to another, and how documents with a shape are read in general.
-/

namespace FlowContract

open Json (Value)

/-- Reads a document that has a shape: the shape decides, and says what is wrong and where. What the
shape of a sound codec accepts can be decoded (`Codec.Sound.parse_eq_error_iff`), so that the words
for what cannot be decoded only stand in for a decoder's own and are never said. -/
def Shape.parse {α : Type} (shape : Shape) (decode : Value → Option α) (v : Value)
    (path : Path) : Except Rejection α := do
  shape.check v path
  match decode v with
  | some result => .ok result
  | none => .error (shape.mismatch v path)

/-- A reference such as `#/definitions/RasterDataType`. -/
structure Reference where
  target : String
  deriving DecidableEq

namespace Reference

/-- A mapping with the one key `$ref`. -/
def shape : Shape := .closed [.mandatory "$ref" .string]

/-- How a reference to a definition of the same document begins. -/
def definitionsMark : String := "#/definitions/"

/-- The name of the definition that is referred to: the mark in front is left off, once. -/
def name (reference : Reference) : String :=
  let target := reference.target.toList
  if definitionsMark.toList.isPrefixOf target then
    String.ofList (target.drop definitionsMark.toList.length)
  else reference.target

def decode (v : Value) : Option Reference := do
  let record ← v.record? ["$ref"] false
  let target ← record.required "$ref" Value.string?
  pure ⟨target⟩

def toValue (reference : Reference) : Value :=
  .ofFields [("$ref", some (.string reference.target))]

end Reference

end FlowContract
