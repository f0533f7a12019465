import FlowContract.Proofs.Definitions.Diagnosis

/-!
Whole documents against their parts. A catalog is read entry by entry; a list of descriptors is
checked as a whole and then decoded as a whole. Main statement: either way a document is read
exactly if each of its parts can be read by itself, it then consists of these readings, and
otherwise it is refused for its first part that cannot be read, in the words for that part in its
place.
-/

namespace FlowContract

open Json (Value)

/-- The first result along a list with its positions is the one from the least position. -/
theorem findSome?_zipIdx_eq_some_iff {α β : Type} {l : List α} {f : α × Nat → Option β} {b : β} :
    l.zipIdx.findSome? f = some b ↔ ∃ i a, l[i]? = some a ∧ f (a, i) = some b ∧
      ∀ j other, j < i → l[j]? = some other → f (other, j) = none := by
  rw [List.findSome?_eq_some_iff]
  constructor
  · rintro ⟨front, ⟨a, i⟩, back, hsplit, hb, hfront⟩
    have hpair (j : Nat) : (front ++ (a, i) :: back)[j]? = l[j]?.map fun x => (x, j) := by
      rw [← hsplit, List.getElem?_zipIdx, Nat.zero_add]
    have hi : l[front.length]?.map (·, front.length) = some (a, i) := by
      rw [← hpair]
      simp
    obtain ⟨_, ha, heq⟩ := Option.map_eq_some_iff.mp hi
    cases heq
    refine ⟨_, a, ha, hb, fun j other hj hother => hfront _ (List.mem_of_getElem? (i := j) ?_)⟩
    rw [← List.getElem?_append_left hj, hpair, hother]
    rfl
  · rintro ⟨i, a, ha, hb, hfront⟩
    obtain ⟨hi, rfl⟩ := List.getElem?_eq_some_iff.mp ha
    have hi' : i < l.zipIdx.length := by rwa [List.length_zipIdx]
    refine ⟨l.zipIdx.take i, (l[i], i), l.zipIdx.drop (i + 1), ?_, hb, ?_⟩
    · have hget : l.zipIdx[i] = (l[i], i) := by simp
      rw [← hget, List.getElem_cons_drop, List.take_append_drop]
    · intro pair hpair
      obtain ⟨j, hj, rfl⟩ := List.mem_take_iff_getElem.mp hpair
      have hlt : j < l.length := by omega
      have hlt' : j < l.zipIdx.length := by omega
      have hget : l.zipIdx[j] = (l[j], j) := by simp
      rw [hget]
      exact hfront j l[j] (by omega) (List.getElem?_eq_getElem hlt)

theorem getElem?_of_forall₂ {α β : Type} {f : α → Option β} {l : List α} {results : List β}
    (h : List.Forall₂ (fun a b => f a = some b) l results) (i : Nat) :
    results[i]? = l[i]?.bind f := by
  induction h generalizing i with
  | nil => rfl
  | cons hhead _ ih =>
    cases i with
    | zero => simp [hhead]
    | succ i => simpa using ih i

/-- A list without bounds is refused for its first element that is refused, in the words for it. -/
theorem Shape.check_list_eq_error_iff {element : Shape} {items : List Value} {path : Path}
    {rejection : Rejection} :
    (Shape.list element).check (.list items) path = .error rejection ↔
      ∃ i item, items[i]? = some item ∧ element.check item (path.index i) = .error rejection ∧
        ∀ j other, j < i → items[j]? = some other →
          element.check other (path.index j) = .ok () := by
  simp only [check_eq_firstOf, Walk.firstOf_eq_error_iff, Walk.firstOf_eq_ok_iff, failures_list,
    List.head?_flatMap, findSome?_zipIdx_eq_some_iff, List.head?_eq_none_iff]

namespace SortedMap

/-- The first entry that passes a test is the one of the least key that passes it. -/
theorem find?_eq_some_iff_least {α : Type} {l : List (String × α)}
    (hsorted : (l.map Prod.fst).Pairwise (· < ·)) {p : String × α → Bool} {pair : String × α} :
    l.find? p = some pair ↔
      pair ∈ l ∧ p pair = true ∧ ∀ other ∈ l, p other = true → pair.1 ≤ other.1 := by
  induction l with
  | nil => simp
  | cons head rest ih =>
    obtain ⟨hhead, hrest⟩ := List.pairwise_cons.mp hsorted
    have hbehind {other : String × α} (hother : other ∈ rest) : head.1 < other.1 :=
      hhead other.1 (List.mem_map_of_mem hother)
    cases hp : p head with
    | true =>
      rw [List.find?_cons_of_pos hp, Option.some.injEq]
      constructor
      · rintro rfl
        refine ⟨List.mem_cons_self, hp, fun other hother _ => ?_⟩
        rcases List.mem_cons.mp hother with rfl | hother
        · exact String.le_refl _
        · apply String.not_lt.mp
          intro hlt
          exact String.lt_irrefl _ (String.lt_trans hlt (hbehind hother))
      · rintro ⟨hmem, -, hall⟩
        rcases List.mem_cons.mp hmem with rfl | hmem
        · rfl
        · exact absurd (hbehind hmem) (String.not_lt.mpr (hall head List.mem_cons_self hp))
    | false =>
      have hfails : ¬ p head = true := ne_true_of_eq_false hp
      rw [List.find?_cons_of_neg hfails, ih hrest, List.forall_mem_cons, List.mem_cons]
      constructor
      · rintro ⟨hmem, hpair, hall⟩
        exact ⟨.inr hmem, hpair, fun h => absurd h hfails, hall⟩
      · rintro ⟨rfl | hmem, hpair, -, hall⟩
        · exact absurd hpair hfails
        · exact ⟨hmem, hpair, hall⟩

end SortedMap

namespace Catalog

variable {catalog : Catalog} {id : String}

theorem operators_eq (catalog : Catalog) :
    catalog.operators = (catalog.definitions.map fun _ => Definition.operator?).compact.entries :=
  (catalog.definitions.entries_compact_map fun _ => Definition.operator?).symm

theorem datatypes_eq (catalog : Catalog) :
    catalog.datatypes = (catalog.definitions.map fun _ => Definition.datatype?).compact.entries :=
  (catalog.definitions.entries_compact_map fun _ => Definition.datatype?).symm

theorem mem_operators_iff {operator : OperatorDefinition} :
    (id, operator) ∈ catalog.operators ↔ catalog.find? id = some (.operator operator) := by
  rw [operators_eq, SortedMap.mem_entries_iff, SortedMap.find?_compact_map, find?]
  cases catalog.definitions.find? id with
  | none => simp
  | some definition => cases definition <;> simp [Definition.operator?]

theorem mem_datatypes_iff {datatype : Datatype} :
    (id, datatype) ∈ catalog.datatypes ↔ catalog.find? id = some (.datatype datatype) := by
  rw [datatypes_eq, SortedMap.mem_entries_iff, SortedMap.find?_compact_map, find?]
  cases catalog.definitions.find? id with
  | none => simp
  | some definition => cases definition <;> simp [Definition.datatype?]

theorem sorted_operators (catalog : Catalog) :
    (catalog.operators.map Prod.fst).Pairwise (· < ·) := by
  rw [operators_eq, SortedMap.map_fst_entries]
  exact SortedMap.sorted _

theorem sorted_datatypes (catalog : Catalog) :
    (catalog.datatypes.map Prod.fst).Pairwise (· < ·) := by
  rw [datatypes_eq, SortedMap.map_fst_entries]
  exact SortedMap.sorted _

theorem nodup_listed (catalog : Catalog) :
    (catalog.operators.map Prod.fst ++ catalog.datatypes.map Prod.fst).Nodup := by
  have hdisjoint : (catalog.operators.map Prod.fst).Disjoint (catalog.datatypes.map Prod.fst) := by
    intro id hoperator hdatatype
    simp only [List.mem_map, Prod.exists, exists_and_right, exists_eq_right, mem_operators_iff,
      mem_datatypes_iff] at hoperator hdatatype
    obtain ⟨operator, hoperator⟩ := hoperator
    obtain ⟨datatype, hdatatype⟩ := hdatatype
    rw [hoperator] at hdatatype
    cases hdatatype
  have hoperators : (catalog.operators.map Prod.fst).Nodup := by
    rw [operators_eq, SortedMap.map_fst_entries]
    exact SortedMap.nodup_keys _
  have hdatatypes : (catalog.datatypes.map Prod.fst).Nodup := by
    rw [datatypes_eq, SortedMap.map_fst_entries]
    exact SortedMap.nodup_keys _
  exact hoperators.append hdatatypes hdisjoint

/-- The two listings share the identifiers out between them. -/
theorem perm_listed (catalog : Catalog) :
    (catalog.operators.map Prod.fst ++ catalog.datatypes.map Prod.fst).Perm
      catalog.definitions.keys := by
  rw [List.perm_ext_iff_of_nodup catalog.nodup_listed catalog.definitions.nodup_keys]
  intro id
  simp only [List.mem_append, List.mem_map, Prod.exists, exists_and_right, exists_eq_right,
    mem_operators_iff, mem_datatypes_iff, SortedMap.mem_keys_iff]
  constructor
  · rintro (⟨operator, hfind⟩ | ⟨datatype, hfind⟩)
    · exact ⟨_, hfind⟩
    · exact ⟨_, hfind⟩
  · rintro ⟨definition, hfind⟩
    cases definition with
    | operator operator => exact .inl ⟨operator, hfind⟩
    | datatype datatype => exact .inr ⟨datatype, hfind⟩

theorem operatorByType?_eq_some_iff {typeTag : String} {operator : OperatorDefinition} :
    catalog.operatorByType? typeTag = some operator ↔
      ∃ id, catalog.find? id = some (.operator operator) ∧ operator.typeTag = typeTag ∧
        ∀ other operator', catalog.find? other = some (.operator operator') →
          operator'.typeTag = typeTag → id ≤ other := by
  simp only [operatorByType?, List.find?_map, Option.map_eq_some_iff, Function.comp_def]
  constructor
  · rintro ⟨⟨id, _⟩, hfind, rfl⟩
    obtain ⟨hmem, htag, hleast⟩ :=
      (SortedMap.find?_eq_some_iff_least catalog.sorted_operators).mp hfind
    refine ⟨id, mem_operators_iff.mp hmem, beq_iff_eq.mp htag, fun other operator' hother heq => ?_⟩
    exact hleast (other, operator') (mem_operators_iff.mpr hother) (beq_iff_eq.mpr heq)
  · rintro ⟨id, hfind, htag, hleast⟩
    refine ⟨(id, operator),
      (SortedMap.find?_eq_some_iff_least catalog.sorted_operators).mpr ?_, rfl⟩
    refine ⟨mem_operators_iff.mpr hfind, beq_iff_eq.mpr htag, ?_⟩
    rintro ⟨other, operator'⟩ hother heq
    exact hleast other operator' (mem_operators_iff.mp hother) (beq_iff_eq.mp heq)

theorem operatorByType?_eq_none_iff {typeTag : String} :
    catalog.operatorByType? typeTag = none ↔
      ∀ id operator, catalog.find? id = some (.operator operator) →
        operator.typeTag ≠ typeTag := by
  simp only [operatorByType?, List.find?_eq_none, List.mem_map, Prod.exists, ← mem_operators_iff]
  constructor
  · intro hnone id operator hmem heq
    exact hnone operator ⟨id, operator, hmem, rfl⟩ (beq_iff_eq.mpr heq)
  · rintro hnone operator ⟨id, operator, hmem, rfl⟩ heq
    exact hnone id operator hmem (beq_iff_eq.mp heq)

/-- The listings of a catalog by kind: each definition stands in exactly one of them, under its
identifier and in order of the identifiers, and an operator is found by its type tag under the least
identifier that has one with the tag. -/
structure Listed (catalog : Catalog) : Prop where
  operators : ∀ id operator,
    (id, operator) ∈ catalog.operators ↔ catalog.find? id = some (.operator operator)
  datatypes : ∀ id datatype,
    (id, datatype) ∈ catalog.datatypes ↔ catalog.find? id = some (.datatype datatype)
  operators_ascend : (catalog.operators.map Prod.fst).Pairwise (· < ·)
  datatypes_ascend : (catalog.datatypes.map Prod.fst).Pairwise (· < ·)
  once : (catalog.operators.map Prod.fst ++ catalog.datatypes.map Prod.fst).Perm
    catalog.definitions.keys
  by_type : ∀ typeTag operator, catalog.operatorByType? typeTag = some operator ↔
    ∃ id, catalog.find? id = some (.operator operator) ∧ operator.typeTag = typeTag ∧
      ∀ other operator', catalog.find? other = some (.operator operator') →
        operator'.typeTag = typeTag → id ≤ other
  no_type : ∀ typeTag, catalog.operatorByType? typeTag = none ↔
    ∀ id operator, catalog.find? id = some (.operator operator) → operator.typeTag ≠ typeTag

theorem listed (catalog : Catalog) : catalog.Listed where
  operators _ _ := mem_operators_iff
  datatypes _ _ := mem_datatypes_iff
  operators_ascend := catalog.sorted_operators
  datatypes_ascend := catalog.sorted_datatypes
  once := catalog.perm_listed
  by_type _ _ := operatorByType?_eq_some_iff
  no_type _ := operatorByType?_eq_none_iff

/-- The definitions of a catalog are its entries, each parsed by itself in its own place. -/
structure MadeOf (catalog : Catalog) (entries : SortedMap Value) (base : Path) : Prop where
  ids : catalog.definitions.keys = entries.keys
  definition : ∀ id, catalog.find? id =
    (entries.find? id).bind fun entry => (Definition.parse entry (base.key id)).toOption

variable {entries : SortedMap Value} {base : Path}

theorem madeOf_of_parse (h : parse (.mapping entries) base = .ok catalog) :
    catalog.MadeOf entries base := by
  obtain ⟨_, result, heq, hresult, hcatalog⟩ := of_parse h
  cases heq
  have hids : catalog.definitions.keys = entries.keys := by rw [hcatalog]
  refine ⟨hids, fun id => ?_⟩
  cases hentry : entries.find? id with
  | none =>
    rw [Option.bind_none, find?, SortedMap.find?_eq_none_iff, hids]
    exact SortedMap.find?_eq_none_iff.mp hentry
  | some entry =>
    obtain ⟨definition, hfind, hparse⟩ := find?_of_parse h hentry
    rw [hfind, Option.bind_some, hparse]
    rfl

theorem exists_parse_iff : (∃ catalog, parse (.mapping entries) base = .ok catalog) ↔
    ∀ id entry, entries.find? id = some entry →
      ∃ definition, Definition.parse entry (base.key id) = .ok definition := by
  constructor
  · rintro ⟨catalog, hparse⟩ id entry hentry
    obtain ⟨definition, -, hdefinition⟩ := find?_of_parse hparse hentry
    exact ⟨definition, hdefinition⟩
  · intro hall
    cases hparse : parse (.mapping entries) base with
    | ok catalog => exact ⟨catalog, rfl⟩
    | error rejection =>
      obtain ⟨id, entry, hentry, herror, -⟩ := parse_mapping_eq_error_iff.mp hparse
      obtain ⟨definition, hdefinition⟩ := hall id entry hentry
      rw [hdefinition] at herror
      cases herror

end Catalog

namespace Descriptor

variable {version : SchemaVersion} {v : Value} {path : Path}

theorem parse_eq_ok_iff {descriptor : Descriptor} : parse version v path = .ok descriptor ↔
    (shape version).Admits v ∧ decode v = some descriptor :=
  (codec version).parses path v descriptor

theorem exists_parse_iff :
    (∃ descriptor, parse version v path = .ok descriptor) ↔ (shape version).Admits v :=
  (codec_sound version).exists_parse_iff ((codec version).parses path)

theorem parse_eq_error_iff {rejection : Rejection} : parse version v path = .error rejection ↔
    (shape version).check v path = .error rejection :=
  (codec_sound version).parse_eq_error_iff

end Descriptor

namespace DescriptorList

variable {version : SchemaVersion} {items : List Value} {list : DescriptorList}

/-- The operators of a list are its elements, each parsed by itself. -/
structure MadeOf (list : DescriptorList) (version : SchemaVersion) (items : List Value) : Prop where
  version_eq : list.version = version
  size_eq : list.size = items.length
  operator : ∀ i : Nat, list.operators[i]? =
    items[i]?.bind fun item => (Descriptor.parse version item .root).toOption

theorem admits_iff : (shape version).Admits (.list items) ↔
    ∀ item ∈ items, (Descriptor.shape version).Admits item := by
  rw [shape, Shape.admits_list_iff]
  simp

theorem decode_list_eq_some_iff : (codec version).decode (.list items) = some list ↔
    list.version = version ∧
      List.Forall₂ (fun item descriptor => Descriptor.decode item = some descriptor) items
        list.operators := by
  rw [← Codec.mapM_eq_some_iff]
  change (items.mapM Descriptor.decode).map (mk version) = some list ↔ _
  rw [Option.map_eq_some_iff]
  constructor
  · rintro ⟨operators, hoperators, rfl⟩
    exact ⟨rfl, hoperators⟩
  · rintro ⟨rfl, hoperators⟩
    exact ⟨_, hoperators, rfl⟩

/-- A list is checked and then decoded as a whole, which comes to doing both with each element. -/
theorem parse_list_eq_ok_iff : parse version (.list items) = .ok list ↔ list.version = version ∧
    List.Forall₂ (fun item descriptor => Descriptor.parse version item .root = .ok descriptor)
      items list.operators := by
  rw [parses, decode_list_eq_some_iff, and_left_comm]
  refine and_congr_right fun _ => ?_
  simp only [Descriptor.parse_eq_ok_iff, List.forall₂_and_left]
  exact and_congr_left fun _ => admits_iff

theorem madeOf_of_parse (h : parse version (.list items) = .ok list) :
    list.MadeOf version items := by
  obtain ⟨hversion, hoperators⟩ := parse_list_eq_ok_iff.mp h
  refine ⟨hversion, hoperators.length_eq.symm, getElem?_of_forall₂ ?_⟩
  refine hoperators.imp fun item descriptor hparse => ?_
  rw [hparse]
  rfl

theorem parse_list_eq_error_iff {rejection : Rejection} :
    parse version (.list items) = .error rejection ↔ ∃ i item, items[i]? = some item ∧
      Descriptor.parse version item (Path.root.index i) = .error rejection ∧
      ∀ j other, j < i → items[j]? = some other →
        ∃ descriptor, Descriptor.parse version other (Path.root.index j) = .ok descriptor := by
  rw [parse_eq_error_iff, shape, Shape.check_list_eq_error_iff]
  simp only [Descriptor.exists_parse_iff, Descriptor.parse_eq_error_iff, Shape.check_eq_ok_iff]

theorem exists_parse_iff : (∃ list, parse version (.list items) = .ok list) ↔
    ∀ item ∈ items, ∃ descriptor, Descriptor.parse version item .root = .ok descriptor := by
  simp only [Descriptor.exists_parse_iff, ← admits_iff]
  exact (codec_sound version).exists_parse_iff (parses version)

end DescriptorList

/-- Whole documents are parsed part by part. A catalog is parsed exactly if each entry is parsed in
its place, consists of what these have become, and lists them by kind; it is refused for the entry
of the least identifier that is refused. A list of descriptors, though checked and decoded as a
whole, is parsed exactly if each element is parsed by itself, consists of what these have become in
their order, and is refused for the first element that is refused, in the words for it in its place.
-/
theorem parsing_is_pointwise :
    (∀ (entries : SortedMap Value) (base : Path),
      ((∃ catalog, Catalog.parse (.mapping entries) base = .ok catalog) ↔
        ∀ id entry, entries.find? id = some entry →
          ∃ definition, Definition.parse entry (base.key id) = .ok definition) ∧
      (∀ catalog, Catalog.parse (.mapping entries) base = .ok catalog →
        catalog.MadeOf entries base) ∧
      ∀ rejection, Catalog.parse (.mapping entries) base = .error rejection ↔
        ∃ id entry, entries.find? id = some entry ∧
          Definition.parse entry (base.key id) = .error rejection ∧
          ∀ earlier other, entries.find? earlier = some other → earlier < id →
            ∃ definition, Definition.parse other (base.key earlier) = .ok definition) ∧
    (∀ catalog : Catalog, catalog.Listed) ∧
    ∀ (version : SchemaVersion) (items : List Value),
      ((∃ list, DescriptorList.parse version (.list items) = .ok list) ↔
        ∀ item ∈ items, ∃ descriptor, Descriptor.parse version item .root = .ok descriptor) ∧
      (∀ list, DescriptorList.parse version (.list items) = .ok list →
        list.MadeOf version items) ∧
      ∀ rejection, DescriptorList.parse version (.list items) = .error rejection ↔
        ∃ i item, items[i]? = some item ∧
          Descriptor.parse version item (Path.root.index i) = .error rejection ∧
          ∀ j other, j < i → items[j]? = some other →
            ∃ descriptor, Descriptor.parse version other (Path.root.index j) = .ok descriptor := by
  refine ⟨fun entries base => ?_, Catalog.listed, fun version items => ?_⟩
  · exact ⟨Catalog.exists_parse_iff, fun _ => Catalog.madeOf_of_parse,
      fun _ => Catalog.parse_mapping_eq_error_iff⟩
  · exact ⟨DescriptorList.exists_parse_iff, fun _ => DescriptorList.madeOf_of_parse,
      fun _ => DescriptorList.parse_list_eq_error_iff⟩

end FlowContract
