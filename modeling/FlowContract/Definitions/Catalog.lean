import FlowContract.Definitions.Datatype
import FlowContract.Definitions.Operator

/-!
Catalogs: definitions of datatypes and operators under their identifiers, and the schema document
that holds a catalog.
-/

namespace FlowContract

open Json (Value)

inductive DefinitionKind where
  | datatype
  | operator
  deriving DecidableEq

namespace DefinitionKind

/-- A definition is of a datatype exactly if `oneOf` is its only key. -/
def classify (entries : SortedMap Value) : DefinitionKind :=
  if entries.keys = ["oneOf"] then datatype else operator

def shape : DefinitionKind → Shape
  | datatype => Datatype.shape
  | operator => OperatorDefinition.shape

end DefinitionKind

inductive Definition where
  | datatype (datatype : Datatype)
  | operator (operator : OperatorDefinition)

namespace Definition

def kind : Definition → DefinitionKind
  | datatype _ => .datatype
  | operator _ => .operator

def operator? : Definition → Option OperatorDefinition
  | operator o => some o
  | datatype _ => none

def datatype? : Definition → Option Datatype
  | datatype d => some d
  | operator _ => none

/-- What the entries of a catalog are called in rejections. -/
def expectation : String := "a datatype or operator definition mapping"

/-- Reads a definition that stands at a place. Its keys decide which kind it has to fit. -/
def parse (v : Value) (path : Path) : Except Rejection Definition :=
  match v.entries? with
  | none => .error ⟨path, expectation, describe v, []⟩
  | some entries =>
    match DefinitionKind.classify entries with
    | .datatype => (Datatype.parse v path).map datatype
    | .operator => (OperatorDefinition.parse v path).map operator

def toValue : Definition → Value
  | datatype d => d.toValue
  | operator o => o.toValue

instance : BEq Definition where
  beq
    | datatype a, datatype b => a == b
    | operator a, operator b => a == b
    | _, _ => false

end Definition

structure Catalog where
  definitions : SortedMap Definition

namespace Catalog

def empty : Catalog := ⟨∅⟩

/-- Reads a catalog that stands at a place. One definition that does not fit rejects the whole
catalog; the one with the least identifier is reported. -/
def parse (v : Value) (path : Path) : Except Rejection Catalog :=
  match v.entries? with
  | none =>
    .error ⟨path, "a mapping of identifiers to " ++ Definition.expectation ++ "s", describe v, []⟩
  | some entries => do
    let definitions ← entries.traverse fun id entry => Definition.parse entry (path.key id)
    pure ⟨definitions⟩

def find? (catalog : Catalog) (id : String) : Option Definition := catalog.definitions.find? id

def size (catalog : Catalog) : Nat := catalog.definitions.size

/-- The operators with their identifiers, in order of these. -/
def operators (catalog : Catalog) : List (String × OperatorDefinition) :=
  catalog.definitions.entries.filterMap fun (id, definition) =>
    definition.operator?.map (id, ·)

/-- The datatypes with their identifiers, in order of these. -/
def datatypes (catalog : Catalog) : List (String × Datatype) :=
  catalog.definitions.entries.filterMap fun (id, definition) =>
    definition.datatype?.map (id, ·)

/-- The operator with a type tag; of several, the one with the least identifier. -/
def operatorByType? (catalog : Catalog) (typeTag : String) : Option OperatorDefinition :=
  (catalog.operators.map Prod.snd).find? (·.typeTag == typeTag)

def toValue (catalog : Catalog) : Value :=
  .mapping (catalog.definitions.map fun _ => Definition.toValue)

instance : BEq Catalog where
  beq a b := a.definitions == b.definitions

end Catalog

/-- A document that holds a catalog, with what it says about itself. -/
structure SchemaDocument where
  metaSchema : Option String
  root : Option String
  title : Option String
  description : Option String
  definitions : Catalog

namespace SchemaDocument

def empty : SchemaDocument := ⟨none, none, none, none, .empty⟩

/-- A schema document whose definitions all have one shape. -/
def shapeOver (definition : Shape) : Shape := .closed [
  .optional "$schema" .string,
  .optional "$ref" .string,
  .optional "title" .nullableString,
  .optional "description" .nullableString,
  .mandatory "definitions" (.keyed .any definition)]

/-- What encloses the catalog. The definitions have shapes of their own, one for each kind. -/
def shape : Shape := shapeOver .anyMapping

/-- Reads a schema document: first what encloses the catalog, then the catalog. -/
def parse (v : Value) : Except Rejection SchemaDocument := do
  shape.check v .root
  let text (key : String) : Option String := (v.get? key).bind Value.string?
  let definitions ←
    Catalog.parse ((v.get? "definitions").getD .null) (Path.root.key "definitions")
  pure {
    metaSchema := text "$schema"
    root := text "$ref"
    title := text "title"
    description := text "description"
    definitions }

def toValue (document : SchemaDocument) : Value :=
  .ofFields [
    ("$schema", document.metaSchema.map .string),
    ("$ref", document.root.map .string),
    ("title", document.title.map .string),
    ("description", document.description.map .string),
    ("definitions", some document.definitions.toValue)]

instance : BEq SchemaDocument where
  beq a b := a.metaSchema == b.metaSchema && a.root == b.root && a.title == b.title
    && a.description == b.description && a.definitions == b.definitions

end SchemaDocument

end FlowContract
