import FlowContract.Definitions.Catalog
import FlowContract.Definitions.Representation
import FlowContract.Workflow

/-!
What an editor publishes: its connection, the definitions it works with and the workflow that is
being edited.
-/

namespace FlowContract

open Json (Value)

structure Connection where
  serverUrl : String
  token : String
  deriving DecidableEq

namespace Connection

/-- Where the server keeps its definitions. Slashes at the end of its URL do not count. -/
def schemaUrl (connection : Connection) : String :=
  let trimmed := (connection.serverUrl.toList.reverse.dropWhile (· == '/')).reverse
  String.ofList trimmed ++ "/workflow/schema"

end Connection

inductive ParsedDefinitions where
  | catalog (document : SchemaDocument)
  | operatorList (operators : DescriptorList)

namespace ParsedDefinitions

instance : BEq ParsedDefinitions where
  beq
    | catalog a, catalog b => a == b
    | operatorList a, operatorList b => a == b
    | _, _ => false

def size : ParsedDefinitions → Nat
  | catalog document => document.definitions.size
  | operatorList operators => operators.size

def catalog? : ParsedDefinitions → Option SchemaDocument
  | catalog document => some document
  | operatorList _ => none

def operatorList? : ParsedDefinitions → Option DescriptorList
  | operatorList operators => some operators
  | catalog _ => none

end ParsedDefinitions

/-- Definitions: the document as it came, and what was read from it. -/
structure Definitions where
  raw : Value
  parsed : ParsedDefinitions

namespace Definitions

/-- What an editor holds before definitions have been loaded. -/
def empty : Representation → Definitions
  | .catalog => ⟨.ofPairs [("definitions", .mapping ∅)], .catalog .empty⟩
  | .operatorList version => ⟨.list [], .operatorList (.empty version)⟩

def parse (representation : Representation) (raw : Value) : Except Rejection Definitions :=
  match representation with
  | .catalog => (SchemaDocument.parse raw).map fun document => ⟨raw, .catalog document⟩
  | .operatorList version =>
    (DescriptorList.parse version raw).map fun operators => ⟨raw, .operatorList operators⟩

def size (definitions : Definitions) : Nat := definitions.parsed.size

instance : BEq Definitions where
  beq a b := a.raw == b.raw && a.parsed == b.parsed

end Definitions

/-- What an editor publishes at one moment. -/
structure Snapshot where
  connection : Connection
  representation : Representation
  definitions : Definitions
  /-- A workflow that is null is not the same as none. -/
  workflow : Option Value
  /-- How often the definitions have changed. -/
  definitionsRevision : Nat
  /-- How often the workflow has changed. -/
  workflowRevision : Nat

namespace Snapshot

def initial (connection : Connection) (representation : Representation) : Snapshot where
  connection
  representation
  definitions := .empty representation
  workflow := none
  definitionsRevision := 0
  workflowRevision := 0

/-- The fields as the other side sees them. -/
def toWire (s : Snapshot) : Value :=
  .ofPairs [
    ("serverUrl", .string s.connection.serverUrl),
    ("token", .string s.connection.token),
    (s.representation.wireField, s.definitions.raw),
    ("workflow", s.workflow.getD .null)]

instance : BEq Snapshot where
  beq a b := a.connection == b.connection && a.representation == b.representation
    && a.definitions == b.definitions && a.workflow == b.workflow
    && a.definitionsRevision == b.definitionsRevision
    && a.workflowRevision == b.workflowRevision

end Snapshot

end FlowContract
