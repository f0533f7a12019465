import FlowContract.Definitions.Reference

/-!
Operator definitions of a catalog: what an operator is called, which parameters it takes and what
its inputs accept.
-/

namespace FlowContract

open Json (Value)

structure ParamDefinition where
  typeName : String
  title : Option String
  helpText : Option String
  format : Option String
  /-- What the elements of a list are; not looked into. -/
  items : Option Value
  /-- What the members of a mapping are; not looked into. -/
  properties : Option Value

namespace ParamDefinition

def shape : Shape := .closed [
  .mandatory "type" .string,
  .optional "title" .nullableString,
  .optional "help_text" .nullableString,
  .optional "format" .nullableString,
  .optional "items" Shape.anyMapping.nullable,
  .optional "properties" Shape.anyMapping.nullable]

/-- Whether a parameter says more than its type, title and help text, so that a plain field does
not do to edit it. -/
def isRestricted (param : ParamDefinition) : Bool :=
  param.format.isSome || param.items.isSome || param.properties.isSome

def decode (v : Value) : Option ParamDefinition := do
  let record ← v.record? ["type", "title", "help_text", "format", "items", "properties"] false
  let typeName ← record.required "type" Value.string?
  let title ← record.optional "title" Value.string?
  let helpText ← record.optional "help_text" Value.string?
  let format ← record.optional "format" Value.string?
  let items ← record.optional "items" some
  let properties ← record.optional "properties" some
  pure { typeName, title, helpText, format, items, properties }

def toValue (param : ParamDefinition) : Value :=
  .ofFields [
    ("type", some (.string param.typeName)),
    ("title", param.title.map .string),
    ("help_text", param.helpText.map .string),
    ("format", param.format.map .string),
    ("items", param.items),
    ("properties", param.properties)]

def equal (a b : ParamDefinition) : Bool :=
  a.typeName == b.typeName && a.title == b.title && a.helpText == b.helpText
    && a.format == b.format && a.items == b.items && a.properties == b.properties

instance : BEq ParamDefinition := ⟨equal⟩

end ParamDefinition

/-- What an input of an operator accepts. -/
inductive SourceDefinition where
  /-- One source of one type. -/
  | single (type : Reference)
  /-- A list of sources of one type. -/
  | array (items : Reference)
  /-- One source of any of several types. -/
  | anyOf (types : List Reference)
  deriving DecidableEq

namespace SourceDefinition

def arrayShape : Shape := .closed [.mandatory "items" Reference.shape]

def anyOfShape : Shape := .closed [.mandatory "anyOf" (.list Reference.shape)]

def shape : Shape := .union [Reference.shape, arrayShape, anyOfShape]

/-- The type of the connection to the input. -/
def pinType : SourceDefinition → String
  | single type => type.name
  | array _ => "array"
  | anyOf types => ",".intercalate (types.map Reference.name)

/-- The type of one element, where the input takes a list. -/
def innerType : SourceDefinition → Option String
  | array items => some items.name
  | _ => none

/-- Reads the first of the three forms that fits. -/
def decode (v : Value) : Option SourceDefinition :=
  let single? := (Reference.decode v).map single
  let array? := do
    let record ← v.record? ["items"] false
    let items ← record.required "items" Reference.decode
    pure (array items)
  let anyOf? := do
    let record ← v.record? ["anyOf"] false
    let types ← record.required "anyOf" (Value.listOf? Reference.decode)
    pure (anyOf types)
  single?.or (array?.or anyOf?)

def toValue : SourceDefinition → Value
  | single type => type.toValue
  | array items => .ofFields [("items", some items.toValue)]
  | anyOf types => .ofFields [("anyOf", some (.list (types.map Reference.toValue)))]

end SourceDefinition

/-- Named declarations and which of them are required. A name may be required without being
declared. -/
structure Slots (α : Type) where
  properties : Option (SortedMap α)
  required : Option (List String)

namespace Slots

variable {α : Type}

def shape (declaration : Shape) : Shape := .closed [
  .optional "properties" (Shape.keyed .any declaration).nullable,
  .optional "required" (Shape.list .string).nullable]

def isRequired (slots : Slots α) (name : String) : Bool :=
  slots.required.any (·.contains name)

def decode (declaration : Value → Option α) (v : Value) : Option (Slots α) := do
  let record ← v.record? ["properties", "required"] false
  let properties ← record.optional "properties" (Value.mapOf? declaration)
  let required ← record.optional "required" (Value.listOf? Value.string?)
  pure { properties, required }

def toValue (declaration : α → Value) (slots : Slots α) : Value :=
  .ofFields [
    ("properties", slots.properties.map fun properties =>
      .mapping (properties.map fun _ => declaration)),
    ("required", slots.required.map .ofStrings)]

instance [BEq α] : BEq (Slots α) where
  beq a b := a.properties == b.properties && a.required == b.required

end Slots

/-- What a catalog says about one operator. -/
structure OperatorDefinition where
  title : Option String
  description : Option String
  helpText : Option String
  /-- The type tag; of several only the first counts, but the shape demands exactly one. -/
  typeTags : List String
  params : Slots ParamDefinition
  sources : Option (Slots SourceDefinition)

namespace OperatorDefinition

def typeTagShape : Shape := .closed [.mandatory "enum" (.strings none 1 1)]

def propertiesShape : Shape := .closed [
  .mandatory "type" typeTagShape,
  .mandatory "params" (Slots.shape ParamDefinition.shape),
  .optional "sources" (Slots.shape SourceDefinition.shape).nullable]

def shape : Shape := .closed [
  .optional "title" .nullableString,
  .optional "description" .nullableString,
  .optional "help_text" .nullableString,
  .mandatory "properties" propertiesShape]

/-- The description of operators that have none. -/
def defaultDescription : String := "Workflow Operator"

/-- The type tag, by which workflows refer to the operator. -/
def typeTag (operator : OperatorDefinition) : String := operator.typeTags.head?.getD ""

/-- The title that is shown: the type tag where no other is given. -/
def shownTitle (operator : OperatorDefinition) : String := operator.title.getD operator.typeTag

def shownDescription (operator : OperatorDefinition) : String :=
  operator.description.getD defaultDescription

def sourceProperties (operator : OperatorDefinition) : Option (SortedMap SourceDefinition) :=
  operator.sources.bind (·.properties)

def isParamRequired (operator : OperatorDefinition) (name : String) : Bool :=
  operator.params.isRequired name

def isSourceRequired (operator : OperatorDefinition) (name : String) : Bool :=
  operator.sources.any (·.isRequired name)

def decodeTypeTags (v : Value) : Option (List String) := do
  let record ← v.record? ["enum"] false
  record.required "enum" (Value.listOf? Value.string?)

def decode (v : Value) : Option OperatorDefinition := do
  let record ← v.record? ["title", "description", "help_text", "properties"] false
  let title ← record.optional "title" Value.string?
  let description ← record.optional "description" Value.string?
  let helpText ← record.optional "help_text" Value.string?
  let properties ← record.required "properties" (Value.record? ["type", "params", "sources"] false)
  let typeTags ← properties.required "type" decodeTypeTags
  let params ← properties.required "params" (Slots.decode ParamDefinition.decode)
  let sources ← properties.optional "sources" (Slots.decode SourceDefinition.decode)
  pure { title, description, helpText, typeTags, params, sources }

def toValue (operator : OperatorDefinition) : Value :=
  .ofFields [
    ("title", operator.title.map .string),
    ("description", operator.description.map .string),
    ("help_text", operator.helpText.map .string),
    ("properties", some (.ofFields [
      ("type", some (.ofFields [("enum", some (.ofStrings operator.typeTags))])),
      ("params", some (operator.params.toValue ParamDefinition.toValue)),
      ("sources", operator.sources.map (Slots.toValue SourceDefinition.toValue))]))]

def parse (v : Value) (path : Path) : Except Rejection OperatorDefinition :=
  shape.parse decode v path

def equal (a b : OperatorDefinition) : Bool :=
  a.title == b.title && a.description == b.description && a.helpText == b.helpText
    && a.typeTags == b.typeTags && a.params == b.params && a.sources == b.sources

instance : BEq OperatorDefinition := ⟨equal⟩

end OperatorDefinition

end FlowContract
