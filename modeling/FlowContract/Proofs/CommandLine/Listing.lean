import FlowContract.CommandLine
import FlowContract.Proofs.Definitions.Pointwise

/-!
What is written about documents. In the summary of one that is refused every rejection has a line,
the one that comes first among them; the lines about one that is taken name each of its parts once.
-/

namespace FlowContract

open Json (Value)

namespace Report

variable {report : Report} {rejection : Rejection}

def itemLine (error : Rejection) : String := "  - " ++ error.message

theorem items_sublist_lines (report : Report) :
    (report.errors.map itemLine).Sublist report.lines := by
  rw [errors_eq, lines, List.map_flatMap]
  induction report.groups.entries with
  | nil => exact .slnil
  | cons group rest ih =>
    rw [List.flatMap_cons, List.flatMap_cons]
    exact (List.sublist_cons_self _ _).append ih

theorem mem_errors_of_head? {entry : String}
    (h : (report.errorsFor entry).head? = some rejection) : rejection ∈ report.errors := by
  have hmem : rejection ∈ report.errorsFor entry := List.mem_of_head? h
  cases hfind : report.groups.find? entry with
  | none => simp [errorsFor, hfind] at hmem
  | some group =>
    rw [errorsFor, hfind, Option.getD_some] at hmem
    rw [errors_eq, List.mem_flatMap]
    exact ⟨(entry, group), SortedMap.mem_entries_iff.mpr hfind, hmem⟩

/-- A report accounts for a rejection: it has it, and there is a line for it and each other one. -/
structure Accounts (report : Report) (rejection : Rejection) : Prop where
  found : rejection ∈ report.errors
  counted : 1 ≤ report.errorCount
  line : itemLine rejection ∈ report.lines
  lines : (report.errors.map itemLine).Sublist report.lines

theorem Explains.accounts {α : Type} {result : Except Rejection α} (h : report.Explains result)
    (hrejection : result = .error rejection) : report.Accounts rejection := by
  obtain ⟨entry, hhead⟩ := h.leads rejection hrejection
  have hfound := mem_errors_of_head? hhead
  exact ⟨hfound, List.length_pos_of_mem hfound,
    report.items_sublist_lines.subset (List.mem_map_of_mem hfound), report.items_sublist_lines⟩

end Report

namespace CommandLine

def operatorLine (entry : String × OperatorDefinition) : String :=
  s!"  -> {entry.1} ({entry.2.typeTag}): {entry.2.shownTitle}"

def datatypeLine (entry : String × Datatype) : String :=
  s!"  -> {entry.1} = " ++ " | ".intercalate entry.2.variantNames

def descriptorLine (operator : Descriptor) : String :=
  s!"  -> {operator.title} -> {operator.outputType.name}"

/-- The lines that name what a document is made of. Of a catalog each entry stands in exactly one of
two listings, with what it is parsed as, and both are in order of the identifiers; of a list each
element stands in its place. -/
inductive Lists : Representation → Value → List String → Prop
  | catalog {document : Value} {members : SortedMap Value}
      {operators : List (String × OperatorDefinition)} {datatypes : List (String × Datatype)}
      (holds : document.get? "definitions" = some (.mapping members))
      (operator : ∀ id operator, (id, operator) ∈ operators ↔ ∃ entry,
        members.find? id = some entry ∧
        Definition.parse entry (SchemaDocument.placeOf id) = .ok (.operator operator))
      (datatype : ∀ id datatype, (id, datatype) ∈ datatypes ↔ ∃ entry,
        members.find? id = some entry ∧
        Definition.parse entry (SchemaDocument.placeOf id) = .ok (.datatype datatype))
      (operators_ascend : (operators.map Prod.fst).Pairwise (· < ·))
      (datatypes_ascend : (datatypes.map Prod.fst).Pairwise (· < ·))
      (once : (operators.map Prod.fst ++ datatypes.map Prod.fst).Perm members.keys) :
      Lists .catalog document ([s!"Operators: {operators.length}"] ++ operators.map operatorLine
        ++ [s!"Datatypes: {datatypes.length}"] ++ datatypes.map datatypeLine)
  | operatorList {version : SchemaVersion} {items : List Value} {descriptors : List Descriptor}
      (elements : List.Forall₂ (fun item descriptor =>
        Descriptor.parse version item .root = .ok descriptor) items descriptors) :
      Lists (.operatorList version) (.list items)
        (s!"Operators ({version.name}): {items.length}" :: descriptors.map descriptorLine)

theorem lists_catalog {document members : Value} {catalog : Catalog}
    (hmembers : document.get? "definitions" = some members)
    (hcatalog : Catalog.parse members (Path.root.key "definitions") = .ok catalog) :
    Lists .catalog document (catalogLines catalog) := by
  obtain ⟨members, _, rfl, -, -⟩ := Catalog.of_parse hcatalog
  have hmade := Catalog.madeOf_of_parse hcatalog
  have hfind (id : String) (definition : Definition) : catalog.find? id = some definition ↔
      ∃ entry, members.find? id = some entry ∧
        Definition.parse entry (SchemaDocument.placeOf id) = .ok definition := by
    rw [hmade.definition, Option.bind_eq_some_iff]
    refine exists_congr fun entry => and_congr_right fun _ => ?_
    change (Definition.parse entry (SchemaDocument.placeOf id)).toOption = _ ↔ _
    cases Definition.parse entry (SchemaDocument.placeOf id) <;> simp [Except.toOption]
  refine .catalog hmembers (fun id operator => ?_) (fun id datatype => ?_)
    catalog.sorted_operators catalog.sorted_datatypes (hmade.ids ▸ catalog.perm_listed)
  · rw [Catalog.mem_operators_iff, hfind]
  · rw [Catalog.mem_datatypes_iff, hfind]

theorem lists_of_parse {representation : Representation} {document : Value}
    {definitions : Definitions}
    (h : Definitions.parse representation document = .ok definitions) :
    Lists representation document (summaryLines definitions.parsed) := by
  cases representation with
  | catalog =>
    obtain ⟨schema, hschema, rfl⟩ := Except.map_eq_ok_iff.mp h
    obtain ⟨entries, members, catalog, rfl, hholds, hcatalog, rfl⟩ :=
      SchemaDocument.of_parse hschema
    exact lists_catalog hholds.catalog hcatalog
  | operatorList version =>
    obtain ⟨list, hlist, rfl⟩ := Except.map_eq_ok_iff.mp h
    obtain ⟨items, _, rfl, -, -⟩ := DescriptorList.of_parse hlist
    obtain ⟨rfl, helements⟩ := DescriptorList.parse_list_eq_ok_iff.mp hlist
    have hlines := Lists.operatorList helements
    rw [helements.length_eq] at hlines
    exact hlines

end CommandLine

end FlowContract
