import FlowContract.Definitions.Reference

/-!
Datatype definitions: a name that stands for any of several others.
-/

namespace FlowContract

open Json (Value)

/-- A datatype: the definitions that it stands for. -/
structure Datatype where
  oneOf : List Reference
  deriving DecidableEq

namespace Datatype

def shape : Shape := .closed [.mandatory "oneOf" (.list Reference.shape)]

/-- The names of the definitions that a datatype stands for. -/
def variantNames (datatype : Datatype) : List String := datatype.oneOf.map Reference.name

def decode (v : Value) : Option Datatype := do
  let record ← v.record? ["oneOf"] false
  let oneOf ← record.required "oneOf" (Value.listOf? Reference.decode)
  pure ⟨oneOf⟩

def toValue (datatype : Datatype) : Value :=
  .ofFields [("oneOf", some (.list (datatype.oneOf.map Reference.toValue)))]

def parse (v : Value) (path : Path) : Except Rejection Datatype := shape.parse decode v path

end Datatype

end FlowContract
