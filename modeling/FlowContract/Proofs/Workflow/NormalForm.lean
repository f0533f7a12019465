import FlowContract.Proofs.Json.Record
import FlowContract.Proofs.Workflow.Preorder

/-!
The normal form of a workflow. A document may give a workflow and its operator as mappings, with any
other keys beside those that count, or as lists of their fields; what is written of the view is a
mapping with the keys that count, and with what the document has under them. Main statement: writing
a view and reading it again changes nothing, and a document has no view only if one of its fields
cannot be read or if it has no such fields.
-/

namespace FlowContract

open Json (Value)

namespace WorkflowNode

/-- The fields of an operator in the order in which a list has them. -/
def fieldNames : List String := ["type", "params", "sources"]

/-- The sources that a document gives, if it gives some. -/
def given (sources : Option Value) : Option Value := sources.filter (!·.isNull)

/-- The entries of a mapping are the fields of an operator as a document has them, and nothing else.
Missing parameters are an empty mapping there, and null sources are missing. -/
inductive Restates (entries : SortedMap Value) (v : Value) : Prop where
  | intro {operatorType : Value} {params sources : Option Value}
      (hfields : Fields v operatorType params sources)
      (hothers : ∀ key, key ∉ fieldNames → entries.find? key = none)
      (htype : entries.find? "type" = some operatorType)
      (hparams : entries.find? "params" = some (params.getD (.mapping ∅)))
      (hsources : entries.find? "sources" = given sources)

theorem get?_toValue (node : WorkflowNode) :
    node.toValue.get? "type" = some (.string node.operatorType) ∧
    node.toValue.get? "params" = some (.mapping node.params) ∧
    node.toValue.get? "sources" = node.sources.map .mapping ∧
    ∀ key, key ∉ fieldNames → node.toValue.get? key = none := by
  refine ⟨?_, ?_, ?_, ?_⟩
  · exact Value.get?_ofFields (by simp) (by simp)
  · exact Value.get?_ofFields (by simp) (by simp)
  · exact Value.get?_ofFields (by simp) (by simp)
  · intro key hkey
    apply Value.get?_ofFields_eq_none
    · simp
    · exact hkey

theorem SourcesSpelled.given_eq {written : Option Value} {sources : Option (SortedMap Value)}
    (h : SourcesSpelled written sources) : given written = sources.map .mapping := by
  cases h <;> rfl

theorem ParamsSpelled.getD_eq {written : Option Value} {params : SortedMap Value}
    (h : ParamsSpelled written params) : written.getD (.mapping ∅) = .mapping params := by
  cases h <;> rfl

/-- What is written of an operator restates whatever spells the operator. -/
theorem Spelled.restates {v : Value} {node : WorkflowNode} (h : Spelled v node) :
    ∃ entries, node.toValue = .mapping entries ∧ Restates entries v := by
  obtain ⟨hfields, hparams, hsources⟩ := h
  obtain ⟨htype, hparams', hsources', hothers⟩ := node.get?_toValue
  refine ⟨_, rfl, hfields, hothers, htype, ?_, ?_⟩
  · rw [hparams.getD_eq]
    exact hparams'
  · rw [hsources.given_eq]
    exact hsources'

/-- What is written of an operator spells it. -/
theorem spelled_toValue (node : WorkflowNode) : Spelled node.toValue node := by
  obtain ⟨htype, hparams, hsources, -⟩ := node.get?_toValue
  have hfields := Fields.mapping htype
  refine ⟨hfields, ?_, ?_⟩
  · change ParamsSpelled (node.toValue.get? "params") node.params
    rw [hparams]
    exact .mapping _
  · change SourcesSpelled (node.toValue.get? "sources") node.sources
    rw [hsources]
    cases node.sources with
    | none => exact .missing
    | some sources => exact .mapping sources

/-- A list of fields is read as the mapping that has them under their names. -/
theorem decode_list {items : List Value} (h : items.length ≤ fieldNames.length) :
    decode (.list items) = decode (.ofPairs (fieldNames.zip items)) := by
  unfold decode
  rw [← fieldNames, Value.record?_list (by decide) h]

theorem decode_list_eq_none {items : List Value}
    (h : items = [] ∨ fieldNames.length < items.length) : decode (.list items) = none := by
  rw [decode_eq_none_iff]
  rintro node ⟨hfields, -, -⟩
  cases hfields <;> simp [fieldNames] at h

end WorkflowNode

namespace Workflow

def fieldNames : List String := ["type", "operator"]

/-- What stands in the fields of a workflow: under their names in a mapping, or in a list of both.
-/
inductive Fields : Value → (type operator : Option Value) → Prop where
  | mapping (entries : SortedMap Value) :
      Fields (.mapping entries) (entries.find? "type") (entries.find? "operator")
  | list (type operator : Value) : Fields (.list [type, operator]) (some type) (some operator)

/-- A value reads as a workflow. -/
inductive Spelled (v : Value) (workflow : Workflow) : Prop where
  | intro {written : Value} (hfields : Fields v (some (.string workflow.resultType)) (some written))
      (hoperator : WorkflowNode.Spelled written workflow.operator)

/-- Why a value does not read as a workflow. -/
inductive Unreadable (v : Value) : Prop where
  | type {type operator : Option Value} (hfields : Fields v type operator)
      (h : ∀ name, type ≠ some (.string name))
  | operator {type operator : Option Value} (hfields : Fields v type operator)
      (h : ∀ written node, operator = some written → ¬ WorkflowNode.Spelled written node)
  | form (h : ∀ type operator, ¬ Fields v type operator)

/-- The entries of a mapping are the fields of a workflow as a document has them, and nothing else.
-/
inductive Restates (entries : SortedMap Value) (v : Value) : Prop where
  | intro {type written : Value} {members : SortedMap Value}
      (hfields : Fields v (some type) (some written))
      (hothers : ∀ key, key ∉ fieldNames → entries.find? key = none)
      (htype : entries.find? "type" = some type)
      (hoperator : entries.find? "operator" = some (.mapping members))
      (hmembers : WorkflowNode.Restates members written)

theorem Fields.record {v : Value} {type operator : Option Value} (h : Fields v type operator) :
    ∃ record, v.record? fieldNames true = some record ∧ record "type" = type ∧
      record "operator" = operator := by
  cases h with
  | mapping => exact ⟨_, rfl, rfl, rfl⟩
  | list => exact ⟨_, rfl, rfl, rfl⟩

/-- A record with both fields has been read from a value that has them. -/
theorem fields_of_record {v type operator : Value} {record : Json.Record}
    (hrecord : v.record? fieldNames true = some record) (htype : record "type" = some type)
    (hoperator : record "operator" = some operator) : Fields v (some type) (some operator) := by
  cases v with
  | mapping entries =>
    cases hrecord
    rw [← htype, ← hoperator]
    exact .mapping entries
  | list items =>
    match items with
    | [] =>
      cases hrecord
      cases htype
    | [first] =>
      cases hrecord
      cases hoperator
    | [first, second] =>
      cases hrecord
      cases htype
      cases hoperator
      exact .list type operator
    | _ :: _ :: _ :: _ => cases hrecord
  | _ => cases hrecord

/-- A workflow is read out of its fields, wherever they stand. -/
theorem Fields.decode_eq {v : Value} {type operator : Option Value} (h : Fields v type operator) :
    decode v = (type.bind Value.string?).bind fun resultType =>
      (operator.bind WorkflowNode.decode).map fun node => ⟨resultType, node⟩ := by
  obtain ⟨record, hrecord, rfl, rfl⟩ := h.record
  unfold decode
  rw [← fieldNames, hrecord]
  simp only [Option.map_eq_bind]
  rfl

/-- A workflow is decoded exactly from the values that spell it. -/
theorem decode_eq_some_iff {v : Value} {workflow : Workflow} :
    decode v = some workflow ↔ Spelled v workflow := by
  constructor
  · intro h
    simp only [decode, Option.bind_eq_bind, Option.bind_eq_some_iff, Json.Record.required,
      WorkflowNode.decode_eq_some_iff] at h
    obtain ⟨record, hrecord, resultType, ⟨written, htype, hstring⟩, operator,
      ⟨written', hoperator, hspelled⟩, heq⟩ := h
    cases heq
    cases written with
    | string value =>
      cases hstring
      exact ⟨fields_of_record hrecord htype hoperator, hspelled⟩
    | _ => cases hstring
  · rintro ⟨hfields, hspelled⟩
    rw [hfields.decode_eq, Option.bind_some, Option.bind_some,
      WorkflowNode.decode_eq_some_iff.mpr hspelled]
    rfl

theorem Fields.unique {v : Value} {type operator type' operator' : Option Value}
    (h : Fields v type operator) (h' : Fields v type' operator') :
    type' = type ∧ operator' = operator := by
  cases h with
  | mapping =>
    cases h'
    exact ⟨rfl, rfl⟩
  | list =>
    cases h'
    exact ⟨rfl, rfl⟩

theorem decode_eq_none_iff {v : Value} : decode v = none ↔ Unreadable v := by
  simp only [Option.eq_none_iff_forall_ne_some, ne_eq, decode_eq_some_iff]
  constructor
  · intro h
    by_cases hform : ∃ type operator, Fields v type operator
    · obtain ⟨type, operator, hfields⟩ := hform
      by_cases htype : ∃ name, type = some (.string name)
      · obtain ⟨name, rfl⟩ := htype
        refine .operator hfields ?_
        rintro written node rfl hspelled
        exact h ⟨name, node⟩ ⟨hfields, hspelled⟩
      · exact .type hfields (not_exists.mp htype)
    · exact .form fun type operator hfields => hform ⟨type, operator, hfields⟩
  · rintro hunreadable workflow ⟨hfields, hspelled⟩
    cases hunreadable with
    | type hfields' h => exact h _ (hfields.unique hfields').1
    | operator hfields' h => exact h _ _ (hfields.unique hfields').2 hspelled
    | form h => exact h _ _ hfields

theorem get?_toValue (workflow : Workflow) :
    workflow.toValue.get? "type" = some (.string workflow.resultType) ∧
    workflow.toValue.get? "operator" = some workflow.operator.toValue ∧
    ∀ key, key ∉ fieldNames → workflow.toValue.get? key = none := by
  refine ⟨?_, ?_, ?_⟩
  · exact Value.get?_ofFields (by simp) (by simp)
  · exact Value.get?_ofFields (by simp) (by simp)
  · intro key hkey
    apply Value.get?_ofFields_eq_none
    · simp
    · exact hkey

/-- What is written of a workflow restates whatever spells the workflow. -/
theorem Spelled.restates {v : Value} {workflow : Workflow} (h : Spelled v workflow) :
    ∃ entries, workflow.toValue = .mapping entries ∧ Restates entries v := by
  obtain ⟨hfields, hoperator⟩ := h
  obtain ⟨members, hwritten, hmembers⟩ := hoperator.restates
  obtain ⟨htype, hoperator', hothers⟩ := workflow.get?_toValue
  rw [hwritten] at hoperator'
  exact ⟨_, rfl, hfields, hothers, htype, hoperator', hmembers⟩

theorem spelled_toValue (workflow : Workflow) : Spelled workflow.toValue workflow := by
  obtain ⟨htype, hoperator, -⟩ := workflow.get?_toValue
  have hfields : Fields workflow.toValue (some (.string workflow.resultType))
      (some workflow.operator.toValue) := by
    rw [← htype, ← hoperator]
    exact .mapping _
  exact ⟨hfields, workflow.operator.spelled_toValue⟩

/-- A list of both fields is read as the mapping that has them under their names. -/
theorem decode_list {items : List Value} (h : items.length ≤ fieldNames.length) :
    decode (.list items) = decode (.ofPairs (fieldNames.zip items)) := by
  unfold decode
  rw [← fieldNames, Value.record?_list (by decide) h]

theorem decode_list_eq_none {items : List Value} (h : items.length ≠ fieldNames.length) :
    decode (.list items) = none := by
  refine decode_eq_none_iff.mpr (.form ?_)
  intro type operator hfields
  cases hfields
  exact h rfl

/-- An operator that is a list of fields is read as the mapping that has them under their names. -/
theorem Fields.decode_list_operator {v v' : Value} {type : Option Value} {items : List Value}
    (h : Fields v type (some (.list items)))
    (h' : Fields v' type (some (.ofPairs (WorkflowNode.fieldNames.zip items))))
    (hlength : items.length ≤ WorkflowNode.fieldNames.length) : decode v = decode v' := by
  rw [h.decode_eq, h'.decode_eq, Option.bind_some, Option.bind_some,
    WorkflowNode.decode_list hlength]

theorem Fields.decode_list_operator_eq_none {v : Value} {type : Option Value} {items : List Value}
    (h : Fields v type (some (.list items)))
    (hitems : items = [] ∨ WorkflowNode.fieldNames.length < items.length) : decode v = none := by
  rw [h.decode_eq, Option.bind_some, WorkflowNode.decode_list_eq_none hitems]
  cases type.bind Value.string? <;> rfl

end Workflow

/-- The view of a workflow is a normal form. What is written of it has the type and the operator
that the document has, and of the operator its type, its parameters and what sources it has, word
for word, but no other keys; it reads as the same view again, with the same types of operators.
Lists of fields are read as the mappings that have them under their names, if they are neither too
long nor too short. A document has no view exactly if its type is not a string, if its operator does
not read, or if it has no such fields. -/
theorem views_are_normal_forms :
    (∀ v workflow, Workflow.decode v = some workflow →
      ∃ entries, workflow.toValue = .mapping entries ∧ Workflow.Restates entries v) ∧
    (∀ workflow, Workflow.decode workflow.toValue = some workflow ∧
      (Workflow.decode workflow.toValue).map (·.operator.operatorTypes) =
        some workflow.operator.operatorTypes) ∧
    (∀ items, Workflow.decode (.list items) =
      if items.length = Workflow.fieldNames.length then
        Workflow.decode (.ofPairs (Workflow.fieldNames.zip items))
      else none) ∧
    (∀ v v' type items, Workflow.Fields v type (some (.list items)) →
      Workflow.Fields v' type (some (.ofPairs (WorkflowNode.fieldNames.zip items))) →
      Workflow.decode v =
        if 0 < items.length ∧ items.length ≤ WorkflowNode.fieldNames.length then
          Workflow.decode v'
        else none) ∧
    ∀ v, Workflow.decode v = none ↔ Workflow.Unreadable v := by
  refine ⟨?_, ?_, ?_, ?_, ?_⟩
  · intro v workflow h
    exact (Workflow.decode_eq_some_iff.mp h).restates
  · intro workflow
    have hdecode := Workflow.decode_eq_some_iff.mpr workflow.spelled_toValue
    exact ⟨hdecode, by rw [hdecode, Option.map_some]⟩
  · intro items
    split
    · rename_i hlength
      exact Workflow.decode_list (Nat.le_of_eq hlength)
    · rename_i hlength
      exact Workflow.decode_list_eq_none hlength
  · intro v v' type items hlist hmapping
    split
    · rename_i hlength
      exact hlist.decode_list_operator hmapping hlength.2
    · rename_i hlength
      apply hlist.decode_list_operator_eq_none
      rw [← List.length_eq_zero_iff]
      omega
  · intro v
    exact Workflow.decode_eq_none_iff

/-- Sources that are null are not written again, and whether the operator is a list of fields or a
mapping cannot be told from what is written. -/
theorem noise_is_restated :
    let items : List Value := [.string "Noise", .ofPairs [("seed", .ofNat 7)], .null]
    let v : Value := .list [.string "Raster", .list items]
    let v' : Value := .list [.string "Raster", .ofPairs (WorkflowNode.fieldNames.zip items)]
    let workflow : Workflow := ⟨"Raster", ⟨"Noise", .ofList [("seed", .ofNat 7)], none⟩⟩
    Workflow.decode v' = some workflow ∧ Workflow.decode v = some workflow ∧
      ∃ entries, workflow.toValue = .mapping entries ∧ Workflow.Restates entries v := by
  intro items v v' workflow
  have hmapping : Workflow.decode v' = some workflow := rfl
  have hlist : Workflow.decode v = some workflow :=
    (views_are_normal_forms.2.2.2.1 v v' _ items (.list _ _) (.list _ _)).trans hmapping
  exact ⟨hmapping, hlist, views_are_normal_forms.1 v workflow hlist⟩

/-- Null is no parameters that could be read, but as good as no sources. -/
example : Workflow.decode (.list [.string "Raster", .list [.string "Noise", .null]]) = none ∧
    Workflow.decode (.list [.string "Raster", .list [.string "Noise", .mapping ∅, .null]]) =
      some ⟨"Raster", ⟨"Noise", ∅, none⟩⟩ := ⟨rfl, rfl⟩

end FlowContract
