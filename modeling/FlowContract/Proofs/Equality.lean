import FlowContract.Editor.Snapshot

/-!
Equality as the editor compares with it. It is coarser than identity, since the two zeros are equal,
and is defined type by type. Each of these comparisons finds a thing equal to itself, and a document
without doubles equal to nothing else.
-/

namespace FlowContract

open Json (Value Number)

instance : ReflBEq Double where
  rfl {x} := by
    change ((x.isZero && x.isZero) || (x.negative == x.negative && x.rank == x.rank)) = true
    simp

instance : ReflBEq Number where
  rfl {x} := by
    cases x with
    | integer value least greatest => exact BEq.rfl (a := value)
    | double value => exact BEq.rfl (a := value)

theorem Json.Value.equalItems_self {items : List Value}
    (h : ∀ item ∈ items, item.equal item = true) : Value.equalItems items items = true := by
  induction items with
  | nil => rfl
  | cons head rest ih =>
    have hhead := h head List.mem_cons_self
    have hrest := ih fun item hitem => h item (List.mem_cons_of_mem _ hitem)
    simp only [Value.equalItems, hhead, hrest, Bool.and_self]

/-- Documents are equal to themselves: members are compared in place, down to the leaves. -/
theorem Json.Value.equal_self (v : Value) : v.equal v = true := by
  induction v with
  | null => rfl
  | boolean value => exact BEq.rfl (a := value)
  | number value => exact BEq.rfl (a := value)
  | string value => exact BEq.rfl (a := value)
  | list items ih => exact Value.equalItems_self ih
  | mapping entries ih =>
    obtain ⟨keys, sorted, get⟩ := entries
    simp only [Value.equal, dite_true, List.all_eq_true, List.mem_ofFn]
    rintro _ ⟨i, rfl⟩
    exact ih i

instance : ReflBEq Value where
  rfl {v} := v.equal_self

/-- Documents in which no number is a double. -/
inductive Json.Value.WithoutDoubles : Value → Prop where
  | null : WithoutDoubles .null
  | boolean (value : Bool) : WithoutDoubles (.boolean value)
  | integer (value : Int) (least : -0x8000000000000000 ≤ value)
      (greatest : value < 0x10000000000000000) :
      WithoutDoubles (.number (.integer value least greatest))
  | string (value : String) : WithoutDoubles (.string value)
  | list {items : List Value} (h : ∀ item ∈ items, WithoutDoubles item) :
      WithoutDoubles (.list items)
  | mapping {entries : SortedMap Value} (h : ∀ i, WithoutDoubles (entries.get i)) :
      WithoutDoubles (.mapping entries)

theorem Json.Value.eq_of_equalItems {items items' : List Value}
    (h : ∀ item ∈ items, ∀ u, item.equal u = true → item = u)
    (hequal : equalItems items items' = true) : items = items' := by
  induction items generalizing items' with
  | nil =>
    cases items' with
    | nil => rfl
    | cons head rest => cases hequal
  | cons head rest ih =>
    cases items' with
    | nil => cases hequal
    | cons head' rest' =>
      obtain ⟨hhead, hrest⟩ := Bool.and_eq_true_iff.mp hequal
      rw [h head List.mem_cons_self head' hhead,
        ih (fun item hitem => h item (List.mem_cons_of_mem _ hitem)) hrest]

/-- It is only doubles that can be equal without being the same. -/
theorem Json.Value.eq_of_equal {v u : Value} (hv : v.WithoutDoubles) (h : v.equal u = true) :
    v = u := by
  induction hv generalizing u with
  | null =>
    cases u with
    | null => rfl
    | _ => cases h
  | boolean value =>
    cases u with
    | boolean value' => rw [eq_of_beq (a := value) h]
    | _ => cases h
  | integer value least greatest =>
    cases u with
    | number number =>
      cases number with
      | integer value' _ _ =>
        obtain rfl := eq_of_beq (a := value) h
        rfl
      | double _ => cases h
    | _ => cases h
  | string value =>
    cases u with
    | string value' => rw [eq_of_beq (a := value) h]
    | _ => cases h
  | @list items _ ih =>
    cases u with
    | list items' => rw [eq_of_equalItems (fun item hitem u hu => ih item hitem hu) h]
    | _ => cases h
  | @mapping entries _ ih =>
    obtain ⟨keys, sorted, get⟩ := entries
    cases u with
    | mapping entries' =>
      obtain ⟨keys', sorted', get'⟩ := entries'
      simp only [equal] at h
      split at h
      · rename_i hkeys
        subst hkeys
        simp only [List.all_eq_true, List.mem_ofFn] at h
        congr 2
        funext i
        exact ih i (h _ ⟨i, rfl⟩)
      · cases h
    | _ => cases h

instance {α : Type} [BEq α] [ReflBEq α] : ReflBEq (SortedMap α) where
  rfl {m} := BEq.rfl (a := m.entries)

instance : ReflBEq ParamDefinition where
  rfl {param} := by
    change param.equal param = true
    simp [ParamDefinition.equal]

instance {α : Type} [BEq α] [ReflBEq α] : ReflBEq (Slots α) where
  rfl {slots} := by
    change (slots.properties == slots.properties && slots.required == slots.required) = true
    simp

instance : ReflBEq OperatorDefinition where
  rfl {operator} := by
    change operator.equal operator = true
    simp [OperatorDefinition.equal]

instance : ReflBEq Definition where
  rfl {definition} := by
    cases definition with
    | datatype datatype => exact BEq.rfl (a := datatype)
    | operator operator => exact BEq.rfl (a := operator)

instance : ReflBEq Catalog where
  rfl {catalog} := BEq.rfl (a := catalog.definitions)

instance : ReflBEq SchemaDocument where
  rfl {document} := by
    change (document.metaSchema == document.metaSchema && document.root == document.root
      && document.title == document.title && document.description == document.description
      && document.definitions == document.definitions) = true
    simp

instance : ReflBEq DescriptorInput where
  rfl {input} := by
    change (input.name == input.name && input.typeName == input.typeName
      && input.schema == input.schema && input.forceAsSource == input.forceAsSource) = true
    simp

instance : ReflBEq Descriptor where
  rfl {descriptor} := by
    change (descriptor.title == descriptor.title && descriptor.desc == descriptor.desc
      && descriptor.description == descriptor.description
      && descriptor.helpUrl == descriptor.helpUrl && descriptor.inputs == descriptor.inputs
      && descriptor.required == descriptor.required
      && descriptor.outputType == descriptor.outputType) = true
    simp

instance : ReflBEq DescriptorList where
  rfl {list} := by
    change (list.version == list.version && list.operators == list.operators) = true
    simp

instance : ReflBEq ParsedDefinitions where
  rfl {parsed} := by
    cases parsed with
    | catalog document => exact BEq.rfl (a := document)
    | operatorList operators => exact BEq.rfl (a := operators)

instance : ReflBEq Definitions where
  rfl {definitions} := by
    change (definitions.raw == definitions.raw && definitions.parsed == definitions.parsed) = true
    simp

end FlowContract
