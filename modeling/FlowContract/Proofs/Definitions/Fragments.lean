import FlowContract.Proofs.Definitions.Diagnosis
import FlowContract.Proofs.Definitions.Parts
import FlowContract.Proofs.Shape.Fragments

/-!
Fragments. A definition keeps some mappings as they are, without looking into them: what the
elements and the members of a parameter are, and what the values of an input are. Main statement:
nothing that is said about a document depends on what is in such a mapping. If it is exchanged, the
document is refused or reported on in the same words, or it is read as the same but for the mapping.
-/

namespace FlowContract

open Json (Value Record)
open Codec

namespace ParamDefinition

/-- The fragments of a parameter. -/
inductive Fragment where
  /-- What the elements of a list are. -/
  | items
  /-- What the members of a mapping are. -/
  | properties

namespace Fragment

def key : Fragment → String
  | items => "items"
  | properties => "properties"

def part : Fragment → Part ParamDefinition Value
  | items =>
    .optional (·.items) (fun items param => { param with items }) (fun _ _ => rfl) fun _ _ => rfl
  | properties =>
    .optional (·.properties) (fun properties param => { param with properties }) (fun _ _ => rfl)
      fun _ _ => rfl

end Fragment

theorem keeps_fragment (fragment : Fragment) :
    Keeps decode [.key fragment.key] some fragment.part := by
  refine Keeps.record (fun _ => rfl) ?_
  intro record param u hread hu hsolid
  simp only [Option.bind_eq_bind, Option.bind_eq_some_iff] at hread
  obtain ⟨typeName, htype, title, htitle, helpText, hhelp, format, hformat, items, hitems,
    properties, hproperties, heq⟩ := hread
  cases heq
  cases fragment with
  | items =>
    obtain ⟨_, heq, rfl⟩ := Record.of_optional hitems hu hsolid
    refine ⟨_, heq, rfl, fun u' b' hu' hb' => ?_⟩
    cases hb'
    simp [Fragment.key, Fragment.part, Part.optional, htype, htitle, hhelp, hformat, hproperties,
      optional_update_self hu']
  | properties =>
    obtain ⟨_, heq, rfl⟩ := Record.of_optional hproperties hu hsolid
    refine ⟨_, heq, rfl, fun u' b' hu' hb' => ?_⟩
    cases hb'
    simp [Fragment.key, Fragment.part, Part.optional, htype, htitle, hhelp, hformat, hitems,
      optional_update_self hu']

end ParamDefinition

namespace Slots

variable {α : Type}

def propertiesPart : Part (Slots α) (SortedMap α) :=
  .optional properties (fun properties slots => { slots with properties }) (fun _ _ => rfl)
    fun _ _ => rfl

theorem keeps_properties (declaration : Value → Option α) :
    Keeps (decode declaration) [.key "properties"] (Value.mapOf? declaration) propertiesPart := by
  refine Keeps.record (fun _ => rfl) ?_
  intro record slots u hread hu hsolid
  simp only [Option.bind_eq_bind, Option.bind_eq_some_iff] at hread
  obtain ⟨properties, hproperties, required, hrequired, heq⟩ := hread
  cases heq
  obtain ⟨_, heq, rfl⟩ := Record.of_optional hproperties hu hsolid
  refine ⟨_, heq, rfl, fun u' b' hu' hb' => ?_⟩
  simp [propertiesPart, Part.optional, hrequired, optional_update_self hu', hb']

end Slots

namespace OperatorDefinition

/-- What an operator takes. -/
def propertiesPart :
    Part OperatorDefinition
      (List String × Slots ParamDefinition × Option (Slots SourceDefinition)) :=
  .field (fun operator => (operator.typeTags, operator.params, operator.sources))
    (fun (typeTags, params, sources) operator => { operator with typeTags, params, sources })
    (fun _ _ => rfl) fun _ _ => rfl

def paramsPart : Part OperatorDefinition (Slots ParamDefinition) :=
  propertiesPart.comp <| .field (·.2.1) (fun params (typeTags, _, sources) =>
    (typeTags, params, sources)) (fun _ _ => rfl) fun _ _ => rfl

theorem keeps_params : Keeps decode [.key "properties", .key "params"]
    (Slots.decode ParamDefinition.decode) paramsPart := by
  have houter : Keeps decode [.key "properties"] propertiesCodec.decode propertiesPart := by
    refine Keeps.record decode_eq ?_
    intro record operator u hread hu hsolid
    simp only [Option.bind_eq_bind, Option.bind_eq_some_iff] at hread
    obtain ⟨title, htitle, description, hdescription, helpText, hhelp, ⟨typeTags, params, sources⟩,
      hproperties, heq⟩ := hread
    cases heq
    rw [Record.required, hu, Option.bind_some] at hproperties
    refine ⟨_, hproperties, rfl, fun u' b' _ hb' => ?_⟩
    simp [propertiesPart, Part.field, htitle, hdescription, hhelp, hb']
  refine houter.comp (Keeps.record (fun _ => rfl) ?_)
  intro record properties u hread hu hsolid
  simp only [Option.bind_eq_bind, Option.bind_eq_some_iff] at hread
  obtain ⟨typeTags, htags, params, hparams, sources, hsources, heq⟩ := hread
  cases heq
  rw [Record.required, hu, Option.bind_some] at hparams
  refine ⟨_, hparams, rfl, fun u' b' _ hb' => ?_⟩
  simp [Part.field, htags, hsources, hb']

end OperatorDefinition

namespace Definition

def operatorPart : Part Definition OperatorDefinition where
  find? := operator?
  exchange
    | o, operator _ => operator o
    | _, datatype d => datatype d
  found := by
    rintro (_ | _) o h o'
    · cases h
    · rfl
  back := by
    rintro (_ | _) o h o'
    · cases h
    · cases h
      rfl

/-- What takes something is an operator. -/
theorem classify_of_mem_keys {entries : SortedMap Value} (h : "properties" ∈ entries.keys) :
    DefinitionKind.classify entries = .operator := by
  apply if_neg
  intro hkeys
  rw [hkeys] at h
  revert h
  decide

theorem decode_of_mem_keys {entries : SortedMap Value} (h : "properties" ∈ entries.keys) :
    decode (.mapping entries) = (OperatorDefinition.decode (.mapping entries)).map operator := by
  simp only [decode, Value.entries?, Option.bind_some, classify_of_mem_keys h]

theorem keeps_params : Keeps decode [.key "properties", .key "params"]
    (Slots.decode ParamDefinition.decode) (operatorPart.comp OperatorDefinition.paramsPart) := by
  have hoperators := OperatorDefinition.keeps_params.map operator operatorPart (fun _ => rfl)
    fun _ _ => rfl
  intro v definition u hread hresolve hu
  obtain ⟨entries, inner, rfl, hinner, -⟩ := Value.exists_of_resolve?_key hresolve
  have hkey : "properties" ∈ entries.keys := SortedMap.mem_keys_iff.mpr ⟨inner, hinner⟩
  rw [decode_of_mem_keys hkey] at hread
  obtain ⟨b, hb, hfind, hexchange⟩ := hoperators _ definition u hread hresolve hu
  refine ⟨b, hb, hfind, fun u' b' hu' hb' => ?_⟩
  rw [← hexchange u' b' hu' hb', Value.replaceAt_key hinner]
  exact decode_of_mem_keys (SortedMap.mem_keys_insert.mpr (.inl rfl))

end Definition

namespace SchemaDocument

def definitionsPart : Part SchemaDocument Catalog :=
  .field definitions (fun definitions document => { document with definitions }) (fun _ _ => rfl)
    fun _ _ => rfl

theorem keeps_definitions :
    Keeps decode [.key "definitions"] Catalog.codec.decode definitionsPart := by
  refine Keeps.record (fun _ => rfl) ?_
  intro record document u hread hu _
  simp only [Option.bind_eq_bind, Option.bind_eq_some_iff] at hread
  obtain ⟨metaSchema, hschema, root, hroot, title, htitle, description, hdescription, definitions,
    hdefinitions, heq⟩ := hread
  cases heq
  rw [Record.required, hu, Option.bind_some] at hdefinitions
  refine ⟨_, hdefinitions, rfl, fun u' b' _ hb' => ?_⟩
  simp [definitionsPart, Part.field, hschema, hroot, htitle, hdescription, hb']

end SchemaDocument

def Catalog.entriesPart : Part Catalog (SortedMap Definition) :=
  .field definitions (fun definitions _ => ⟨definitions⟩) (fun _ _ => rfl) fun _ _ => rfl

theorem Catalog.keeps_entry (id : String) :
    Keeps codec.decode [.key id] Definition.decode (entriesPart.comp (.entry id)) :=
  (Keeps.mapOf id).map mk entriesPart (fun _ => rfl) fun _ _ => rfl

namespace DescriptorInput

def schemaPart : Part DescriptorInput Value :=
  .optional schema (fun schema input => { input with schema }) (fun _ _ => rfl) fun _ _ => rfl

theorem keeps_schema : Keeps decode [.key "schema"] some schemaPart := by
  refine Keeps.record (fun _ => rfl) ?_
  intro record input u hread hu hsolid
  simp only [Option.bind_eq_bind, Option.bind_eq_some_iff] at hread
  obtain ⟨name, hname, typeName, htype, schema, hschema, forceAsSource, hforce, heq⟩ := hread
  cases heq
  obtain ⟨_, heq, rfl⟩ := Record.of_optional hschema hu hsolid
  refine ⟨_, heq, rfl, fun u' b' hu' hb' => ?_⟩
  cases hb'
  simp [schemaPart, Part.optional, hname, htype, hforce, optional_update_self hu']

end DescriptorInput

namespace Descriptor

def inputsPart : Part Descriptor (List DescriptorInput) :=
  .optional inputs (fun inputs descriptor => { descriptor with inputs }) (fun _ _ => rfl)
    fun _ _ => rfl

theorem keeps_inputs :
    Keeps decode [.key "inputs"] (Value.listOf? DescriptorInput.decode) inputsPart := by
  refine Keeps.record (fun _ => rfl) ?_
  intro record descriptor u hread hu hsolid
  simp only [Option.bind_eq_bind, Option.bind_eq_some_iff] at hread
  obtain ⟨title, htitle, desc, hdesc, description, hdescription, helpUrl, hhelp, inputs, hinputs,
    required, hrequired, outputType, houtput, heq⟩ := hread
  cases heq
  obtain ⟨_, heq, rfl⟩ := Record.of_optional hinputs hu hsolid
  refine ⟨_, heq, rfl, fun u' b' hu' hb' => ?_⟩
  simp [inputsPart, Part.optional, htitle, hdesc, hdescription, hhelp, hrequired, houtput,
    optional_update_self hu', hb']

end Descriptor

def DescriptorList.operatorsPart : Part DescriptorList (List Descriptor) :=
  .field operators (fun operators list => { list with operators }) (fun _ _ => rfl) fun _ _ => rfl

theorem DescriptorList.keeps_element (version : SchemaVersion) (position : Nat) :
    Keeps (codec version).decode [.index position] Descriptor.decode
      (operatorsPart.comp (.element position)) :=
  (Keeps.listOf position).map (mk version) operatorsPart (fun _ => rfl) fun _ _ => rfl

/-! What is said against a document that has another fragment. -/

namespace OperatorDefinition

/-- Where an operator has a fragment of a parameter. -/
def fragmentPlace (name : String) (fragment : ParamDefinition.Fragment) : List Segment :=
  [.key "properties", .key "params", .key "properties", .key name, .key fragment.key]

theorem overlooks_fragment (name : String) (fragment : ParamDefinition.Fragment) :
    shape.Overlooks (fragmentPlace name fragment) := by
  have hparam : ParamDefinition.shape.Overlooks [.key fragment.key] := by
    cases fragment with
    | items =>
      exact .closed (by decide) (show Field.optional "items" Shape.anyMapping.nullable ∈ _ by simp)
        (.nullable .here)
    | properties =>
      exact .closed (by decide)
        (show Field.optional "properties" Shape.anyMapping.nullable ∈ _ by simp) (.nullable .here)
  have hparams : (Slots.shape ParamDefinition.shape).Overlooks
      [.key "properties", .key name, .key fragment.key] :=
    .closed (by decide) (show Field.optional "properties"
      (Shape.keyed .any ParamDefinition.shape).nullable ∈ _ by simp)
      (.nullable (.member .any name hparam))
  have hproperties : propertiesShape.Overlooks
      [.key "params", .key "properties", .key name, .key fragment.key] :=
    .closed (by decide)
      (show Field.mandatory "params" (Slots.shape ParamDefinition.shape) ∈ _ by simp) hparams
  exact .closed (by decide) (show Field.mandatory "properties" propertiesShape ∈ _ by simp)
    hproperties

end OperatorDefinition

theorem Definition.rejection?_parse_exchange {v : Value} {old : SortedMap Value} {name : String}
    {fragment : ParamDefinition.Fragment}
    (hresolve : (Path.mk (OperatorDefinition.fragmentPlace name fragment)).resolve? v =
      some (.mapping old)) (new : SortedMap Value) (path : Path) :
    rejection? (parse (v.replaceAt (OperatorDefinition.fragmentPlace name fragment) (.mapping new))
      path) = rejection? (parse v path) := by
  have hcheck := (OperatorDefinition.overlooks_fragment name fragment).check_eq hresolve new path
  obtain ⟨entries, inner, rfl, hinner, -⟩ := Value.exists_of_resolve?_key hresolve
  have hkey : "properties" ∈ entries.keys := SortedMap.mem_keys_iff.mpr ⟨inner, hinner⟩
  rw [OperatorDefinition.fragmentPlace, Value.replaceAt_key hinner] at hcheck ⊢
  apply Option.ext
  intro rejection
  rw [rejection?_eq_some_iff, rejection?_eq_some_iff, parse_mapping_eq_error_iff,
    parse_mapping_eq_error_iff, classify_of_mem_keys hkey,
    classify_of_mem_keys (SortedMap.mem_keys_insert.mpr (.inl rfl))]
  exact hcheck ▸ Iff.rfl

namespace SchemaDocument

theorem overlooks_definition (id name : String) (rest : List Segment) :
    shape.Overlooks (.key "definitions" :: .key id :: .key name :: rest) :=
  .closed (by decide)
    (show Field.mandatory "definitions" (Shape.keyed .any .anyMapping) ∈ _ by simp)
    (.member .any id (.within name rest))

/-- A report on a catalog is known by what is said against the entries. -/
theorem ofSchema_eq {entries members : SortedMap Value} (h : Holds entries (.mapping members))
    (hshape : shape.Admits (.mapping entries)) :
    Report.ofSchema (.mapping entries) = ⟨(faults members).map fun _ rejection => [rejection]⟩ := by
  have hgroups : (Report.ofSchema (.mapping entries)).groups =
      (faults members).map fun _ rejection => [rejection] := by
    apply SortedMap.ext_find?
    intro id
    rw [(gathers_faults h hshape).find?_groups, SortedMap.find?_map]
  exact congrArg Report.mk hgroups

/-- Where a document has a fragment of a parameter. -/
def fragmentPlace (id name : String) (fragment : ParamDefinition.Fragment) : List Segment :=
  .key "definitions" :: .key id :: OperatorDefinition.fragmentPlace name fragment

def fragmentPart (id name : String) (fragment : ParamDefinition.Fragment) :
    Part SchemaDocument Value :=
  definitionsPart.comp <| (Catalog.entriesPart.comp (.entry id)).comp <|
    (Definition.operatorPart.comp OperatorDefinition.paramsPart).comp <|
    Slots.propertiesPart.comp <| (Part.entry name).comp fragment.part

theorem keeps_fragment (id name : String) (fragment : ParamDefinition.Fragment) :
    Keeps decode (fragmentPlace id name fragment) some (fragmentPart id name fragment) :=
  keeps_definitions.comp <| (Catalog.keeps_entry id).comp <| Definition.keeps_params.comp <|
    (Slots.keeps_properties ParamDefinition.decode).comp <|
    (Keeps.mapOf name).comp <| ParamDefinition.keeps_fragment fragment

/-- Entries are refused for themselves, and this one is refused for nothing else than before. -/
theorem faults_insert {members : SortedMap Value} {id : String} {entry entry' : Value}
    (hentry : members.find? id = some entry)
    (h : rejection? (Definition.parse entry' (placeOf id)) =
      rejection? (Definition.parse entry (placeOf id))) :
    faults (members.insert id entry') = faults members := by
  apply SortedMap.ext_find?
  intro other
  rw [find?_faults, find?_faults, SortedMap.find?_insert]
  split
  · rename_i hother
    rw [hother, hentry, Option.bind_some, Option.bind_some, h]
  · rfl

/-- What is said against a document, and against which entries. -/
theorem told_exchange {v v' : Value} {old new : SortedMap Value} {id name : String}
    {fragment : ParamDefinition.Fragment}
    (hresolve : (Path.mk (fragmentPlace id name fragment)).resolve? v = some (.mapping old))
    (hreplace : v.replaceAt (fragmentPlace id name fragment) (.mapping new) = v') :
    rejection? (parse v') = rejection? (parse v) ∧ Report.ofSchema v' = Report.ofSchema v := by
  have hcheck : shape.check v' .root = shape.check v .root := by
    rw [← hreplace]
    exact (overlooks_definition id "properties" _).check_eq hresolve new .root
  cases hresult : shape.check v .root with
  | error rejection =>
    have hresult' := hcheck.trans hresult
    rw [parse_eq_error_iff.mpr (.enclosing hresult), parse_eq_error_iff.mpr (.enclosing hresult'),
      ofSchema_of_refused hresult, ofSchema_of_refused hresult']
    exact ⟨rfl, rfl⟩
  | ok =>
    have hadmits := (shape.check_eq_ok_iff v .root).mp hresult
    have hadmits' := (shape.check_eq_ok_iff v' .root).mp (hcheck.trans hresult)
    obtain ⟨entries, members, rfl, hholds, hmembers⟩ := mappings_of_admits hadmits
    obtain ⟨entries', members', rfl, hholds', hmembers'⟩ := mappings_of_admits hadmits'
    have hfaults : faults members' = faults members := by
      obtain ⟨_, _, heq, hcatalog, hresolve⟩ := Value.exists_of_resolve?_key hresolve
      cases heq
      cases hholds.catalog.symm.trans hcatalog
      obtain ⟨_, entry, heq, hentry, hresolve⟩ := Value.exists_of_resolve?_key hresolve
      cases heq
      rw [fragmentPlace, Value.replaceAt_key hcatalog, Value.replaceAt_key hentry] at hreplace
      cases hreplace
      have hcatalog' := hholds'.catalog
      rw [SortedMap.find?_insert_self] at hcatalog'
      cases hcatalog'
      exact faults_insert hentry (Definition.rejection?_parse_exchange hresolve new _)
    rw [rejection?_parse hholds hmembers, rejection?_parse hholds' hmembers',
      ofSchema_eq hholds hadmits, ofSchema_eq hholds' hadmits', hfaults]
    exact ⟨rfl, rfl⟩

end SchemaDocument

namespace Descriptor

/-- Where a descriptor has the schema of an input. -/
def schemaPlace (position : Nat) : List Segment :=
  [.key "inputs", .index position, .key "schema"]

theorem overlooks_schema (version : SchemaVersion) (position : Nat) :
    (shape version).Overlooks (schemaPlace position) := by
  have hinput : (DescriptorInput.shape version).Overlooks [.key "schema"] :=
    .closed (by cases version <;> decide)
      (show Field.optional "schema" .anyMapping ∈ _ by simp) .here
  exact .closed (by cases version <;> decide)
    (show Field.optional "inputs" (Shape.list (DescriptorInput.shape version)).nullable ∈ _ by simp)
    (.nullable (.element 0 none position hinput))

/-- An element is reported under the same name, whatever the schemas of its inputs. -/
theorem elementName_exchange {item : Value} {old : SortedMap Value} {j : Nat}
    (hresolve : (Path.mk (schemaPlace j)).resolve? item = some (.mapping old))
    (new : SortedMap Value) (position : Nat) :
    Report.elementName position (item.replaceAt (schemaPlace j) (.mapping new)) =
      Report.elementName position item := by
  obtain ⟨entries, inputs, rfl, hinputs, -⟩ := Value.exists_of_resolve?_key hresolve
  rw [schemaPlace, Value.replaceAt_key hinputs, Report.elementName, Report.elementName]
  have htitle (u : Value) : (Value.mapping (entries.insert "inputs" u)).get? "title" =
      (Value.mapping entries).get? "title" := SortedMap.find?_insert_of_ne (by decide) entries u
  rw [htitle]

end Descriptor

namespace DescriptorList

/-- Where a list has the schema of an input. -/
def schemaPlace (i j : Nat) : List Segment := .index i :: Descriptor.schemaPlace j

def schemaPart (i j : Nat) : Part DescriptorList Value :=
  (operatorsPart.comp (.element i)).comp <| Descriptor.inputsPart.comp <|
    (Part.element j).comp DescriptorInput.schemaPart

theorem keeps_schema (version : SchemaVersion) (i j : Nat) :
    Keeps (codec version).decode (schemaPlace i j) some (schemaPart i j) :=
  (keeps_element version i).comp <| Descriptor.keeps_inputs.comp <|
    (Keeps.listOf j).comp DescriptorInput.keeps_schema

/-- What a report makes of an element: the name that it is reported under, and its check. -/
def noted (version : SchemaVersion) (element : Value × Nat) : String × Except Rejection Unit :=
  (Report.elementName element.2 element.1,
    (Descriptor.shape version).check element.1 (Path.root.index element.2))

theorem ofOperatorList_eq (version : SchemaVersion) (items : List Value) :
    Report.ofOperatorList version (.list items) =
      (items.zipIdx.map (noted version)).foldl (fun report found => report.note found.1 found.2)
        .empty := by
  rw [List.foldl_map]
  rfl

/-- What is said against a list, and against which elements. -/
theorem told_exchange (version : SchemaVersion) {v : Value} {old : SortedMap Value} {i j : Nat}
    (hresolve : (Path.mk (schemaPlace i j)).resolve? v = some (.mapping old))
    (new : SortedMap Value) :
    rejection? (parse version (v.replaceAt (schemaPlace i j) (.mapping new))) =
        rejection? (parse version v) ∧
      Report.ofOperatorList version (v.replaceAt (schemaPlace i j) (.mapping new)) =
        Report.ofOperatorList version v := by
  have hoverlooks : (shape version).Overlooks (schemaPlace i j) :=
    .element 0 none i (Descriptor.overlooks_schema version j)
  refine ⟨?_, ?_⟩
  · rw [rejection?_parse, rejection?_parse, hoverlooks.check_eq hresolve]
  · obtain ⟨items, item, rfl, hitem, hrest⟩ := Value.exists_of_resolve?_index hresolve
    have hnoted : noted version (item.replaceAt (Descriptor.schemaPlace j) (.mapping new), i) =
        noted version (item, i) := by
      simp only [noted, Descriptor.elementName_exchange hrest,
        (Descriptor.overlooks_schema version j).check_eq hrest]
    rw [schemaPlace, Value.replaceAt_index hitem, ofOperatorList_eq, ofOperatorList_eq,
      map_zipIdx_set hitem hnoted]

end DescriptorList

/-- Parsing and reporting do not look into what stands in a place, as long as it is a mapping. What
is parsed keeps the mapping word for word, and is otherwise the same with any other one. -/
structure Unread {α : Type} (parse : Value → Except Rejection α) (report : Value → Report)
    (segments : List Segment) (part : Part α Value) : Prop where
  parsed : ∀ v old new, (Path.mk segments).resolve? v = some (.mapping old) →
    parse (v.replaceAt segments (.mapping new)) = (parse v).map (part.exchange (.mapping new))
  reported : ∀ v old new, (Path.mk segments).resolve? v = some (.mapping old) →
    report (v.replaceAt segments (.mapping new)) = report v
  kept : ∀ v old a, (Path.mk segments).resolve? v = some (.mapping old) → parse v = .ok a →
    part.find? a = some (.mapping old) ∧ ∀ new,
      part.find? (part.exchange (.mapping new) a) = some (.mapping new) ∧
      part.exchange (.mapping old) (part.exchange (.mapping new) a) = a

/-- What is said against documents is said by the parser and by the report; what the reader keeps is
then kept by the parser. -/
theorem Codec.Parses.unread {α : Type} {f : Codec α} {parse : Value → Except Rejection α}
    {report : Value → Report} {segments : List Segment} {part : Part α Value}
    (hparse : f.Parses parse) (hkeeps : Keeps f.decode segments some part)
    (htold : ∀ v old new, (Path.mk segments).resolve? v = some (.mapping old) →
      rejection? (parse (v.replaceAt segments (.mapping new))) = rejection? (parse v) ∧
        report (v.replaceAt segments (.mapping new)) = report v) :
    Unread parse report segments part := by
  have hkept {v : Value} {old : SortedMap Value} {a : α}
      (hresolve : (Path.mk segments).resolve? v = some (.mapping old)) (ha : parse v = .ok a) :
      part.find? a = some (.mapping old) ∧ ∀ new,
        f.decode (v.replaceAt segments (.mapping new)) = some (part.exchange (.mapping new) a) := by
    obtain ⟨_, hread⟩ := (hparse v a).mp ha
    obtain ⟨_, heq, hfind, hexchange⟩ := hkeeps v a _ hread hresolve nofun
    cases heq
    exact ⟨hfind, fun new => hexchange _ _ nofun rfl⟩
  refine ⟨?_, fun v old new hresolve => (htold v old new hresolve).2, ?_⟩
  · intro v old new hresolve
    have hrejection := (htold v old new hresolve).1
    cases hresult : parse v with
    | error rejection =>
      rw [hresult] at hrejection
      exact rejection?_eq_some_iff.mp hrejection
    | ok a =>
      rw [hresult] at hrejection
      cases hresult' : parse (v.replaceAt segments (.mapping new)) with
      | error rejection =>
        rw [hresult'] at hrejection
        cases hrejection
      | ok a' =>
        have hread' := ((hparse _ a').mp hresult').2
        cases hread'.symm.trans ((hkept hresolve hresult).2 new)
        rfl
  · intro v old a hresolve ha
    have hfind := (hkept hresolve ha).1
    exact ⟨hfind, fun new => ⟨part.found hfind _, part.back hfind _⟩⟩

/-- The mappings that a definition keeps as they are have no say in whether a document is accepted,
in what is said against it, or in what else is read from it: those of the parameters of a catalog,
and those of the inputs of a list of either revision. -/
theorem fragments_are_not_looked_into :
    (∀ id name fragment, Unread SchemaDocument.parse Report.ofSchema
      (SchemaDocument.fragmentPlace id name fragment)
      (SchemaDocument.fragmentPart id name fragment)) ∧
    ∀ version i j, Unread (DescriptorList.parse version) (Report.ofOperatorList version)
      (DescriptorList.schemaPlace i j) (DescriptorList.schemaPart i j) := by
  constructor
  · intro id name fragment
    apply SchemaDocument.parses.unread (SchemaDocument.keeps_fragment id name fragment)
    intro v old new hresolve
    exact SchemaDocument.told_exchange hresolve rfl
  · intro version i j
    apply (DescriptorList.parses version).unread (DescriptorList.keeps_schema version i j)
    intro v old new hresolve
    exact DescriptorList.told_exchange version hresolve new

/-- The only thing that changes with a schema is the schema. -/
theorem seed_without_bounds_is_read_alike :
    let document (bounds : SortedMap Value) : Value := .list [.ofPairs [
      ("title", .string "Noise"),
      ("inputs", .list [.ofPairs [
        ("name", .string "seed"), ("type", .string "integer"), ("schema", .mapping bounds)]]),
      ("outputType", .string "raster")]]
    let v := document (.ofList [("minimum", .ofNat 0)])
    ∃ list, DescriptorList.parse .v1 v = .ok list ∧
      DescriptorList.parse .v1 (v.replaceAt (DescriptorList.schemaPlace 0 0) (.mapping ∅)) =
        .ok ((DescriptorList.schemaPart 0 0).exchange (.mapping ∅) list) := by
  intro document v
  let input : DescriptorInput :=
    ⟨"seed", "integer", some (.mapping (.ofList [("minimum", .ofNat 0)])), none⟩
  refine ⟨⟨.v1, [⟨"Noise", none, none, none, some [input], none, .raster⟩]⟩, rfl, ?_⟩
  exact (fragments_are_not_looked_into.2 .v1 0 0).parsed v _ ∅ rfl

end FlowContract
