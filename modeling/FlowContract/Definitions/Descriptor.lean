import FlowContract.Definitions.Reference

/-!
Operator descriptors: the editor's own, flat description of an operator, in two revisions, and the
ordered list of them that an editor offers.
-/

namespace FlowContract

open Json (Value)

/-- The revisions of the descriptor format. The first one knows a fixed set of output types and
lets inputs be forced to be sources; the second one takes any output type and has dropped the
latter. -/
inductive SchemaVersion where
  | v1
  | v2
  deriving DecidableEq

namespace SchemaVersion

instance : Inhabited SchemaVersion := ⟨v2⟩

def name : SchemaVersion → String
  | v1 => "v1"
  | v2 => "v2"

def ofName? (name : String) : Option SchemaVersion :=
  if name = "v1" then some v1 else if name = "v2" then some v2 else none

end SchemaVersion

inductive OutputType where
  | raster
  | vector
  | plot
  /-- The type of the operator's source. -/
  | copyFromSource
  | other (name : String)
  deriving DecidableEq

namespace OutputType

/-- The names of the output types with a meaning of their own. -/
def fixed : List String := ["raster", "vector", "plot", "copyFromSource"]

def name : OutputType → String
  | raster => "raster"
  | vector => "vector"
  | plot => "plot"
  | copyFromSource => "copyFromSource"
  | other name => name

def ofName (name : String) : OutputType :=
  if name = "raster" then raster
  else if name = "vector" then vector
  else if name = "plot" then plot
  else if name = "copyFromSource" then copyFromSource
  else other name

end OutputType

structure DescriptorInput where
  name : String
  typeName : String
  /-- A description of the values of the input; not looked into. -/
  schema : Option Value
  forceAsSource : Option Bool

namespace DescriptorInput

def shape (version : SchemaVersion) : Shape := .closed <|
  [.mandatory "name" .string, .mandatory "type" .string, .optional "schema" .anyMapping] ++
    match version with
    | .v1 => [.optional "forceAsSource" .boolean]
    | .v2 => []

def decode (v : Value) : Option DescriptorInput := do
  let record ← v.record? ["name", "type", "schema", "forceAsSource"] false
  let name ← record.required "name" Value.string?
  let typeName ← record.required "type" Value.string?
  let schema ← record.optional "schema" some
  let forceAsSource ← record.optional "forceAsSource" Value.boolean?
  pure { name, typeName, schema, forceAsSource }

def toValue (input : DescriptorInput) : Value :=
  .ofFields [
    ("name", some (.string input.name)),
    ("type", some (.string input.typeName)),
    ("schema", input.schema),
    ("forceAsSource", input.forceAsSource.map .boolean)]

instance : BEq DescriptorInput where
  beq a b := a.name == b.name && a.typeName == b.typeName && a.schema == b.schema
    && a.forceAsSource == b.forceAsSource

end DescriptorInput

/-- What the editor says about one operator. -/
structure Descriptor where
  title : String
  /-- The older spelling of the description. -/
  desc : Option String
  description : Option String
  helpUrl : Option String
  inputs : Option (List DescriptorInput)
  required : Option (List String)
  outputType : OutputType

namespace Descriptor

def outputTypeShape : SchemaVersion → Shape
  | .v1 => .oneOf OutputType.fixed
  | .v2 => .nonEmptyString

def shape (version : SchemaVersion) : Shape := .closed [
  .mandatory "title" .string,
  .optional "desc" .string,
  .optional "description" .string,
  .optional "helpUrl" .string,
  .optional "inputs" (Shape.list (DescriptorInput.shape version)).nullable,
  .optional "required" (Shape.list .string).nullable,
  .mandatory "outputType" (outputTypeShape version)]

/-- The description that is shown: the newer spelling wins. -/
def shownDescription (descriptor : Descriptor) : Option String :=
  descriptor.description.or descriptor.desc

def allInputs (descriptor : Descriptor) : List DescriptorInput := descriptor.inputs.getD []

/-- The first input of a name. -/
def input? (descriptor : Descriptor) (name : String) : Option DescriptorInput :=
  descriptor.allInputs.find? (·.name == name)

def isInputRequired (descriptor : Descriptor) (name : String) : Bool :=
  descriptor.required.any (·.contains name)

def decode (v : Value) : Option Descriptor := do
  let record ← v.record?
    ["title", "desc", "description", "helpUrl", "inputs", "required", "outputType"] false
  let title ← record.required "title" Value.string?
  let desc ← record.optional "desc" Value.string?
  let description ← record.optional "description" Value.string?
  let helpUrl ← record.optional "helpUrl" Value.string?
  let inputs ← record.optional "inputs" (Value.listOf? DescriptorInput.decode)
  let required ← record.optional "required" (Value.listOf? Value.string?)
  let outputType ← record.required "outputType" Value.string?
  pure { title, desc, description, helpUrl, inputs, required,
         outputType := .ofName outputType }

def toValue (descriptor : Descriptor) : Value :=
  .ofFields [
    ("title", some (.string descriptor.title)),
    ("desc", descriptor.desc.map .string),
    ("description", descriptor.description.map .string),
    ("helpUrl", descriptor.helpUrl.map .string),
    ("inputs", descriptor.inputs.map fun inputs =>
      .list (inputs.map DescriptorInput.toValue)),
    ("required", descriptor.required.map .ofStrings),
    ("outputType", some (.string descriptor.outputType.name))]

def parse (version : SchemaVersion) (v : Value) (path : Path) : Except Rejection Descriptor :=
  (shape version).parse decode v path

instance : BEq Descriptor where
  beq a b := a.title == b.title && a.desc == b.desc && a.description == b.description
    && a.helpUrl == b.helpUrl && a.inputs == b.inputs && a.required == b.required
    && a.outputType == b.outputType

end Descriptor

/-- The operators that an editor offers, in order. -/
structure DescriptorList where
  version : SchemaVersion
  operators : List Descriptor

namespace DescriptorList

def empty (version : SchemaVersion) : DescriptorList := ⟨version, []⟩

def shape (version : SchemaVersion) : Shape := .list (Descriptor.shape version)

/-- Reads a list of descriptors. One element that does not fit rejects the whole list. -/
def parse (version : SchemaVersion) (v : Value) : Except Rejection DescriptorList := do
  let operators ← (shape version).parse (Value.listOf? Descriptor.decode) v .root
  pure ⟨version, operators⟩

def size (list : DescriptorList) : Nat := list.operators.length

/-- The first operator of a title. -/
def find? (list : DescriptorList) (title : String) : Option Descriptor :=
  list.operators.find? (·.title == title)

def toValue (list : DescriptorList) : Value := .list (list.operators.map Descriptor.toValue)

instance : BEq DescriptorList where
  beq a b := a.version == b.version && a.operators == b.operators

end DescriptorList

end FlowContract
