import FlowContract.Proofs.SortedMap
import FlowContract.Workflow

/-!
The operators of a workflow in preorder. A workflow is read out of a document that nobody has
checked, one level after the other, so that its tree is there only in what the document spells. Here
the tree is told by relations between the document and what is read from it. Main statement: these
relations and the functions that read are the same, and reading comes to an end.
-/

namespace FlowContract

open Json (Value Record)

theorem map_eq_of_forall₂ {α β : Type} {R : α → β → Prop} {f : α → β} {l : List α}
    {results : List β} (h : List.Forall₂ R l results) (hf : ∀ a ∈ l, ∀ b, R a b → f a = b) :
    l.map f = results := by
  induction h with
  | nil => rfl
  | @cons a b l _ hhead _ ih =>
    have hrest := ih fun a ha => hf a (List.mem_cons_of_mem _ ha)
    rw [List.map_cons, hf a List.mem_cons_self b hhead, hrest]

namespace WorkflowNode

/-- What stands in the fields of an operator: under their names in a mapping, or in their order in a
list that breaks off behind any of them. -/
inductive Fields : Value → (operatorType : Value) → (params sources : Option Value) → Prop where
  | mapping {entries : SortedMap Value} {operatorType : Value}
      (htype : entries.find? "type" = some operatorType) :
      Fields (.mapping entries) operatorType (entries.find? "params") (entries.find? "sources")
  | one (operatorType : Value) : Fields (.list [operatorType]) operatorType none none
  | two (operatorType params : Value) :
      Fields (.list [operatorType, params]) operatorType (some params) none
  | three (operatorType params sources : Value) :
      Fields (.list [operatorType, params, sources]) operatorType (some params) (some sources)

/-- No parameters are written as an empty mapping or not at all. -/
inductive ParamsSpelled : Option Value → SortedMap Value → Prop where
  | missing : ParamsSpelled none ∅
  | mapping (params : SortedMap Value) : ParamsSpelled (some (.mapping params)) params

/-- No sources are written as null or not at all. -/
inductive SourcesSpelled : Option Value → Option (SortedMap Value) → Prop where
  | missing : SourcesSpelled none none
  | null : SourcesSpelled (some .null) none
  | mapping (sources : SortedMap Value) : SourcesSpelled (some (.mapping sources)) (some sources)

/-- A value reads as an operator. -/
inductive Spelled (v : Value) (node : WorkflowNode) : Prop where
  | intro {params sources : Option Value}
      (hfields : Fields v (.string node.operatorType) params sources)
      (hparams : ParamsSpelled params node.params) (hsources : SourcesSpelled sources node.sources)

theorem decodeParams_eq_some_iff {written : Option Value} {params : SortedMap Value} :
    decodeParams written = some params ↔ ParamsSpelled written params := by
  constructor
  · intro h
    cases written with
    | none =>
      cases h
      exact .missing
    | some v =>
      obtain rfl := Value.entries?_eq_some_iff.mp h
      exact .mapping params
  · rintro (_ | _)
    · rfl
    · rfl

theorem optional_sources_eq_some_iff {record : Record} {sources : Option (SortedMap Value)} :
    record.optional "sources" Value.entries? = some sources ↔
      SourcesSpelled (record "sources") sources := by
  unfold Record.optional
  cases record "sources" with
  | none =>
    constructor
    · rintro ⟨⟩
      exact .missing
    · rintro ⟨⟩
      rfl
  | some v =>
    cases v with
    | null =>
      constructor
      · rintro ⟨⟩
        exact .null
      · rintro ⟨⟩
        rfl
    | mapping entries =>
      constructor
      · rintro ⟨⟩
        exact .mapping entries
      · rintro ⟨⟩
        rfl
    | _ =>
      constructor
      · rintro ⟨⟩
      · rintro ⟨⟩

/-- A record has the fields of the value that it is read from. -/
theorem fields_iff {v operatorType : Value} {params sources : Option Value} :
    Fields v operatorType params sources ↔ ∃ record,
      v.record? ["type", "params", "sources"] true = some record ∧
      record "type" = some operatorType ∧ record "params" = params ∧
      record "sources" = sources := by
  constructor
  · rintro (htype | _ | _ | _)
    · exact ⟨_, rfl, htype, rfl, rfl⟩
    · exact ⟨_, rfl, rfl, rfl, rfl⟩
    · exact ⟨_, rfl, rfl, rfl, rfl⟩
    · exact ⟨_, rfl, rfl, rfl, rfl⟩
  · rintro ⟨record, hrecord, htype, rfl, rfl⟩
    cases v with
    | mapping entries =>
      cases hrecord
      exact .mapping htype
    | list items =>
      match items with
      | [] =>
        cases hrecord
        cases htype
      | [first] =>
        cases hrecord
        cases htype
        exact .one operatorType
      | [first, second] =>
        cases hrecord
        cases htype
        exact .two operatorType second
      | [first, second, third] =>
        cases hrecord
        cases htype
        exact .three operatorType second third
      | _ :: _ :: _ :: _ :: _ => cases hrecord
    | _ => cases hrecord

/-- An operator is decoded exactly from the values that spell it. -/
theorem decode_eq_some_iff {v : Value} {node : WorkflowNode} :
    decode v = some node ↔ Spelled v node := by
  simp only [decode, Option.bind_eq_bind, Option.bind_eq_some_iff, Record.required,
    decodeParams_eq_some_iff, optional_sources_eq_some_iff]
  constructor
  · rintro ⟨record, hrecord, operatorType, ⟨written, hwritten, htype⟩, params, hparams, sources,
      hsources, heq⟩
    cases heq
    cases written with
    | string value =>
      cases htype
      have hfields := fields_iff.mpr ⟨record, hrecord, hwritten, rfl, rfl⟩
      exact ⟨hfields, hparams, hsources⟩
    | _ => cases htype
  · rintro ⟨hfields, hparams, hsources⟩
    obtain ⟨record, hrecord, htype, rfl, rfl⟩ := fields_iff.mp hfields
    exact ⟨record, hrecord, _, ⟨_, htype, rfl⟩, _, hparams, _, hsources, rfl⟩

/-! Operators among values. -/

/-- What is read from values, one after the other: what does not read is passed over. -/
inductive Reading : List Value → List WorkflowNode → Prop where
  | nil : Reading [] []
  | operator {v : Value} {node : WorkflowNode} {values : List Value} {nodes : List WorkflowNode}
      (h : Spelled v node) (hrest : Reading values nodes) : Reading (v :: values) (node :: nodes)
  | other {v : Value} {values : List Value} {nodes : List WorkflowNode}
      (h : ∀ node, ¬ Spelled v node) (hrest : Reading values nodes) : Reading (v :: values) nodes

/-- The values in a slot: the elements of a list, or else the value by itself. -/
def contents : Value → List Value
  | .list items => items
  | other => [other]

/-- What is read from slots, one after the other, with the names of the slots. -/
inductive Children : List (String × Value) → List (String × WorkflowNode) → Prop where
  | nil : Children [] []
  | slot {name : String} {v : Value} {nodes : List WorkflowNode} {slots : List (String × Value)}
      {children : List (String × WorkflowNode)} (h : Reading (contents v) nodes)
      (hrest : Children slots children) :
      Children ((name, v) :: slots) (nodes.map (name, ·) ++ children)

/-- The slots of an operator in order of their names. -/
def slots (node : WorkflowNode) : List (String × Value) :=
  (node.sources.map SortedMap.entries).getD []

/-- The types of a tree in preorder: that of an operator, and then those of one child after the
other. -/
inductive Preorder : WorkflowNode → List String → Prop where
  | node {node : WorkflowNode} {children : List (String × WorkflowNode)}
      {types : List (List String)} (hchildren : Children node.slots children)
      (htypes : List.Forall₂ (fun child types => Preorder child.2 types) children types) :
      Preorder node (node.operatorType :: types.flatten)

theorem decode_eq_none_iff {v : Value} : decode v = none ↔ ∀ node, ¬ Spelled v node := by
  simp only [Option.eq_none_iff_forall_ne_some, ne_eq, decode_eq_some_iff]

theorem reading_iff {values : List Value} {nodes : List WorkflowNode} :
    values.filterMap decode = nodes ↔ Reading values nodes := by
  constructor
  · rintro rfl
    induction values with
    | nil => exact .nil
    | cons v rest ih =>
      rw [List.filterMap_cons]
      cases hv : decode v with
      | some node => exact .operator (decode_eq_some_iff.mp hv) ih
      | none => exact .other (decode_eq_none_iff.mp hv) ih
  · intro h
    induction h with
    | nil => rfl
    | operator h _ ih => rw [List.filterMap_cons_some (decode_eq_some_iff.mpr h), ih]
    | other h _ ih => rw [List.filterMap_cons_none (decode_eq_none_iff.mpr h), ih]

theorem inSlot_eq (v : Value) : inSlot v = (contents v).filterMap decode := by
  have hsingle (v : Value) : (decode v).toList = [v].filterMap decode := by
    rw [List.filterMap_cons]
    cases decode v <;> rfl
  cases v with
  | list items => rfl
  | null => exact hsingle .null
  | boolean value => exact hsingle (.boolean value)
  | number value => exact hsingle (.number value)
  | string value => exact hsingle (.string value)
  | mapping entries => exact hsingle (.mapping entries)

/-- In a slot a list is not one operator, whatever it spells elsewhere. -/
example : inSlot (.list [.string "Raster"]) = [] ∧
    (inSlot (.list [.list [.string "Raster"]])).map operatorType = ["Raster"] := ⟨rfl, rfl⟩

theorem sourceOperators_eq (node : WorkflowNode) :
    node.sourceOperators = node.slots.flatMap fun slot => (inSlot slot.2).map (slot.1, ·) := by
  unfold sourceOperators slots
  cases node.sources <;> rfl

theorem children_iff {slots : List (String × Value)} {children : List (String × WorkflowNode)} :
    (slots.flatMap fun slot => (inSlot slot.2).map (slot.1, ·)) = children ↔
      Children slots children := by
  constructor
  · rintro rfl
    induction slots with
    | nil => exact .nil
    | cons slot rest ih =>
      obtain ⟨name, v⟩ := slot
      rw [List.flatMap_cons]
      have hcontents : Reading (contents v) (inSlot v) := reading_iff.mp (inSlot_eq v).symm
      exact .slot hcontents ih
  · intro h
    induction h with
    | nil => rfl
    | @slot name v nodes _ _ h _ ih =>
      have hnodes : inSlot v = nodes := (inSlot_eq v).trans (reading_iff.mpr h)
      rw [List.flatMap_cons, ih, hnodes]

theorem sourceOperators_eq_iff {node : WorkflowNode} {children : List (String × WorkflowNode)} :
    node.sourceOperators = children ↔ Children node.slots children := by
  rw [sourceOperators_eq]
  exact children_iff

theorem operatorTypes_eq (node : WorkflowNode) : node.operatorTypes =
    node.operatorType :: node.sourceOperators.flatMap fun child => child.2.operatorTypes := by
  rw [operatorTypes, List.flatMap_subtype (g := fun child => child.2.operatorTypes),
    List.unattach_attach]
  rintro ⟨slot, source⟩ hmem
  rfl

/-- What an operator draws from. -/
def DrawnFrom (source node : WorkflowNode) : Prop := ∃ slot, (slot, source) ∈ node.sourceOperators

/-- There is no way down without an end: less is left of the document with every step. -/
theorem wellFounded_drawnFrom : WellFounded DrawnFrom := by
  apply Subrelation.wf (r := InvImage (· < ·) weight)
  · rintro source node ⟨slot, hmem⟩
    exact weight_lt_of_mem hmem
  · exact InvImage.wf weight Nat.lt_wfRel.wf

/-- The types of an operator are in preorder, and there is no other preorder of its tree. The
induction is on the way down to the operators that it draws from. -/
theorem operatorTypes_eq_iff {node : WorkflowNode} {types : List String} :
    node.operatorTypes = types ↔ node.Preorder types := by
  induction node using wellFounded_drawnFrom.induction generalizing types with
  | _ node ih =>
    have hchild : ∀ child ∈ node.sourceOperators, ∀ types,
        child.2.operatorTypes = types ↔ child.2.Preorder types := by
      intro child hmem types
      exact ih child.2 ⟨child.1, hmem⟩
    rw [operatorTypes_eq]
    constructor
    · rintro rfl
      rw [List.flatMap]
      apply Preorder.node (sourceOperators_eq_iff.mp rfl)
      rw [List.forall₂_map_right_iff, List.forall₂_same]
      intro child hmem
      exact (hchild child hmem _).mp rfl
    · intro h
      cases h with
      | node hchildren htypes =>
        obtain rfl := sourceOperators_eq_iff.mpr hchildren
        have hlists := map_eq_of_forall₂ htypes fun child hmem types h =>
          (hchild child hmem types).mpr h
        rw [List.flatMap, hlists]

end WorkflowNode

/-- A workflow is read as what its document spells. A value reads as an operator if it has a type,
and parameters and sources or none of them, under their names or in a list. The sources of an
operator are what its slots spell, in order of their names and of the elements of a list, and its
types are those of its tree in preorder, which comes to an end. What does not read is passed over on
its own. -/
theorem types_are_the_preorder_of_what_reads :
    (∀ v node, WorkflowNode.decode v = some node ↔ WorkflowNode.Spelled v node) ∧
    (∀ node children, WorkflowNode.sourceOperators node = children ↔
      WorkflowNode.Children node.slots children) ∧
    (∀ node types, WorkflowNode.operatorTypes node = types ↔ node.Preorder types) ∧
    WellFounded WorkflowNode.DrawnFrom := by
  refine ⟨?_, ?_, ?_, WorkflowNode.wellFounded_drawnFrom⟩
  · intro v node
    exact WorkflowNode.decode_eq_some_iff
  · intro node children
    exact WorkflowNode.sourceOperators_eq_iff
  · intro node types
    exact WorkflowNode.operatorTypes_eq_iff

end FlowContract
