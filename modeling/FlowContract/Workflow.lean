import FlowContract.Json.Record

/-!
Workflows: a tree of operators, read leniently from a document that nobody has checked. Parts that
do not read as operators are passed over.
-/

namespace FlowContract

open Json (Value Record)

/-- One operator of a workflow. Its sources are kept as they are written, since they need not be
readable. -/
structure WorkflowNode where
  operatorType : String
  params : SortedMap Value
  sources : Option (SortedMap Value)

namespace WorkflowNode

/-- The parameters of an operator: none are written where the field is missing. -/
def decodeParams : Option Value → Option (SortedMap Value)
  | none => some ∅
  | some params => params.entries?

/-- Reads an operator. Parameters may be missing, but are not null; sources may be either. -/
def decode (v : Value) : Option WorkflowNode := do
  let record ← v.record? ["type", "params", "sources"] true
  let operatorType ← record.required "type" Value.string?
  let params ← decodeParams (record "params")
  let sources ← record.optional "sources" Value.entries?
  pure { operatorType, params, sources }

def toValue (node : WorkflowNode) : Value :=
  .ofFields [
    ("type", some (.string node.operatorType)),
    ("params", some (.mapping node.params)),
    ("sources", node.sources.map .mapping)]

/-- The operators in one slot: those among the elements of a list, or else the value itself if it
is one. -/
def inSlot (v : Value) : List WorkflowNode :=
  match v with
  | .list items => items.filterMap decode
  | other => (decode other).toList

/-- The operators that an operator draws from, with the names of their slots. -/
def sourceOperators (node : WorkflowNode) : List (String × WorkflowNode) :=
  match node.sources with
  | none => []
  | some sources => sources.entries.flatMap fun (slot, v) => (inSlot v).map (slot, ·)

/-- How much document is left below an operator. -/
def weight (node : WorkflowNode) : Nat :=
  match node.sources with
  | none => 0
  | some sources => (Value.mapping sources).size

private theorem size_lt_of_record {v field : Value} {names : List String} {isOpen : Bool}
    {record : Record} {name : String} (hrecord : v.record? names isOpen = some record)
    (hfield : record name = some field) : field.size < v.size := by
  unfold Value.record? at hrecord
  split at hrecord
  · split at hrecord
    · simp only [Option.some.injEq] at hrecord
      subst hrecord
      simp only [SortedMap.find?, Option.map_eq_some_iff] at hfield
      obtain ⟨i, -, rfl⟩ := hfield
      exact Value.size_get_lt _ i
    · simp at hrecord
  · split at hrecord
    · simp only [Option.some.injEq] at hrecord
      subst hrecord
      obtain ⟨before, after, hzip, -⟩ := List.lookup_eq_some_iff.mp hfield
      have hmem : (name, field) ∈ before ++ (name, field) :: after := by simp
      rw [← hzip] at hmem
      exact Value.size_lt_of_mem (List.of_mem_zip hmem).2
    · simp at hrecord
  · simp at hrecord

/-- An operator that was read from a value has less below it than the value has. -/
theorem weight_lt_of_decode {v : Value} {node : WorkflowNode} (h : decode v = some node) :
    node.weight < v.size := by
  have hpos := v.size_pos
  simp only [decode, bind, Option.bind_eq_some_iff] at h
  obtain ⟨record, hrecord, operatorType, -, params, -, sources, hsources, h⟩ := h
  simp only [pure, Option.some.injEq] at h
  subst h
  simp only [weight]
  cases sources with
  | none => exact hpos
  | some entries =>
    simp only [Record.optional] at hsources
    split at hsources
    · simp at hsources
    · simp at hsources
    · rename_i field _ hfield
      simp only [Option.map_eq_some_iff, Option.some.injEq] at hsources
      obtain ⟨entries', hentries, rfl⟩ := hsources
      have hfieldSize := size_lt_of_record hrecord hfield
      cases field <;> simp [Value.entries?] at hentries
      subst hentries
      exact hfieldSize

/-- A source has less below it than the operator that draws from it. -/
theorem weight_lt_of_mem {node source : WorkflowNode} {slot : String}
    (h : (slot, source) ∈ node.sourceOperators) : source.weight < node.weight := by
  unfold sourceOperators at h
  split at h
  · simp at h
  · rename_i sources hsources
    simp only [List.mem_flatMap, List.mem_map, Prod.mk.injEq] at h
    obtain ⟨⟨slot', v⟩, hentry, source', hsource, -, rfl⟩ := h
    simp only [SortedMap.entries, List.mem_ofFn, Prod.mk.injEq] at hentry
    obtain ⟨i, -, rfl⟩ := hentry
    have hv := Value.size_get_lt sources i
    have hnode : node.weight = (Value.mapping sources).size := by simp only [weight, hsources]
    rw [hnode]
    unfold inSlot at hsource
    split at hsource
    · rename_i items hitems
      obtain ⟨item, hitem, hdecode⟩ := List.mem_filterMap.mp hsource
      have hw := weight_lt_of_decode hdecode
      have hs := Value.size_lt_of_mem hitem
      have heq : (sources.get i).size = (Value.list items).size := congrArg Value.size hitems
      omega
    · simp only [Option.mem_toList] at hsource
      have hw := weight_lt_of_decode hsource
      omega

/-- The types of the operators of a tree: each before those that it draws from. -/
def operatorTypes (node : WorkflowNode) : List String :=
  node.operatorType ::
    node.sourceOperators.attach.flatMap fun ⟨(_, source), _⟩ => source.operatorTypes
termination_by node.weight
decreasing_by exact weight_lt_of_mem (by assumption)

end WorkflowNode

/-- A workflow: the type of its result and the operator that gives it. -/
structure Workflow where
  resultType : String
  operator : WorkflowNode

namespace Workflow

/-- Reads a workflow; a document that is none simply has no such view. -/
def decode (v : Value) : Option Workflow := do
  let record ← v.record? ["type", "operator"] true
  let resultType ← record.required "type" Value.string?
  let operator ← record.required "operator" WorkflowNode.decode
  pure { resultType, operator }

def toValue (workflow : Workflow) : Value :=
  .ofFields [
    ("type", some (.string workflow.resultType)),
    ("operator", some workflow.operator.toValue)]

end Workflow

end FlowContract
