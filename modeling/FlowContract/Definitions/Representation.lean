import FlowContract.Definitions.Descriptor

/-!
The forms of definitions documents: a deployment keeps either a catalog or a list of descriptors.
-/

namespace FlowContract

/-- The form in which a deployment keeps its definitions. -/
inductive Representation where
  /-- A schema document with a catalog. -/
  | catalog
  /-- A list of operator descriptors. -/
  | operatorList (version : SchemaVersion)
  deriving DecidableEq

namespace Representation

instance : Inhabited Representation := ⟨catalog⟩

/-- The field of the editor's state that holds the definitions. -/
def wireField : Representation → String
  | catalog => "schema"
  | operatorList _ => "definitions"

end Representation

end FlowContract
