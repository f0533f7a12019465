import FlowContract.Proofs.Definitions.Agreement

/-!
Catalogs. The definitions of a catalog are told apart by their keys and then fit the shape of their
kind, which comes to the same as fitting one of the two shapes: what is parsed is what the union of
the two accepts, and it is decoded as the kind that its keys tell.
-/

namespace FlowContract

open Json (Value)
open Codec

theorem Datatype.keys_of_admits {entries : SortedMap Value}
    (h : Datatype.shape.Admits (.mapping entries)) : entries.keys = ["oneOf"] := by
  obtain ⟨_, heq, hfields, hclosed⟩ := Shape.admits_closed_iff.mp h
  cases heq
  simp only [List.forall_mem_cons] at hfields
  have hkey : "oneOf" ∈ entries.keys := hfields.1.2 rfl
  have hall : ∀ key ∈ entries.keys, key = "oneOf" := by
    intro key hmem
    obtain ⟨field, hfield, rfl⟩ := hclosed key hmem
    rw [List.mem_singleton.mp hfield]
    rfl
  have hnodup := entries.nodup_keys
  match hkeys : entries.keys with
  | [] => simp [hkeys] at hkey
  | [key] => rw [hall key (by simp [hkeys])]
  | key :: other :: rest =>
    have heq := hall key (by simp [hkeys])
    have heq' := hall other (by simp [hkeys])
    simp [hkeys, heq, heq'] at hnodup

theorem OperatorDefinition.mem_keys_of_admits {entries : SortedMap Value}
    (h : OperatorDefinition.shape.Admits (.mapping entries)) : "properties" ∈ entries.keys := by
  obtain ⟨_, heq, hfields, -⟩ := Shape.admits_closed_iff.mp h
  cases heq
  simp only [List.forall_mem_cons] at hfields
  exact hfields.2.2.2.1.2 rfl

theorem OperatorDefinition.keys_of_admits {entries : SortedMap Value}
    (h : OperatorDefinition.shape.Admits (.mapping entries)) : entries.keys ≠ ["oneOf"] := by
  have hkey := mem_keys_of_admits h
  intro hkeys
  rw [hkeys] at hkey
  revert hkey
  decide

namespace Definition

/-- The places where a definition may have nulls. Those of operators do for datatypes, which have
none of their keys. -/
def nullable : List Place := OperatorDefinition.nullable

/-- Reads a definition as the kind that its keys tell. -/
def decode (v : Value) : Option Definition :=
  v.entries?.bind fun entries =>
    match DefinitionKind.classify entries with
    | .datatype => (Datatype.decode v).map datatype
    | .operator => (OperatorDefinition.decode v).map operator

def codec : Codec Definition where
  shape := .union [Datatype.shape, OperatorDefinition.shape]
  nullable := nullable
  decode := decode
  encode := toValue

theorem admits_iff {v : Value} :
    codec.shape.Admits v ↔ Datatype.shape.Admits v ∨ OperatorDefinition.shape.Admits v := by
  simp only [codec, Shape.Admits, Shape.AdmitsSome, or_false]

theorem exists_entries {v : Value} (h : codec.shape.Admits v) :
    ∃ entries, v = .mapping entries := by
  rcases admits_iff.mp h with h | h
  · obtain ⟨entries, heq, -⟩ := Shape.admits_closed_iff.mp h
    exact ⟨entries, heq⟩
  · obtain ⟨entries, heq, -⟩ := Shape.admits_closed_iff.mp h
    exact ⟨entries, heq⟩

theorem decode_of_datatype {v : Value} (h : Datatype.shape.Admits v) :
    decode v = (Datatype.decode v).map datatype := by
  obtain ⟨entries, rfl, -⟩ := Shape.admits_closed_iff.mp h
  have hkind : DefinitionKind.classify entries = .datatype := if_pos (Datatype.keys_of_admits h)
  simp only [decode, Value.entries?, Option.bind_some, hkind]

theorem decode_of_operator {v : Value} (h : OperatorDefinition.shape.Admits v) :
    decode v = (OperatorDefinition.decode v).map operator := by
  obtain ⟨entries, rfl, -⟩ := Shape.admits_closed_iff.mp h
  have hkind : DefinitionKind.classify entries = .operator :=
    if_neg (OperatorDefinition.keys_of_admits h)
  simp only [decode, Value.entries?, Option.bind_some, hkind]

theorem withoutNulls_datatype {v : Value} (h : Datatype.shape.Admits v) :
    v.withoutNulls nullable = v := by
  obtain ⟨entries, rfl, -⟩ := Shape.admits_closed_iff.mp h
  rw [Value.withoutNulls_mapping, Value.entriesWithoutNulls_eq_self]
  intro key member hfind
  obtain rfl : key = "oneOf" := by
    simpa [Datatype.keys_of_admits h] using SortedMap.mem_keys_iff.mpr ⟨member, hfind⟩
  have hplaces : Place.under nullable "oneOf" = [] := rfl
  simp [hplaces, Value.kept, Place.here]

theorem codec_sound : codec.Sound where
  solid := by
    rw [admits_iff]
    rintro (h | h)
    · exact Datatype.codec_sound.solid h
    · exact OperatorDefinition.codec_sound.solid h
  carries v hv := by
    rcases admits_iff.mp hv with h | h
    · obtain ⟨d, hd⟩ := Datatype.codec_sound.carries v h
      have hdecode : decode v = some (datatype d) := by
        rw [decode_of_datatype h, show Datatype.decode v = some d from hd.decoded]
        rfl
      have hencode : d.toValue = v := hd.encoded.trans v.withoutNulls_nil
      refine ⟨datatype d, hdecode, ?_, ?_, ?_⟩
      · exact hencode.trans (withoutNulls_datatype h).symm
      · rwa [show codec.nullable = nullable from rfl, withoutNulls_datatype h]
      · rwa [show codec.nullable = nullable from rfl, withoutNulls_datatype h]
    · obtain ⟨o, ho⟩ := OperatorDefinition.codec_sound.carries v h
      refine ⟨operator o, ?_, ho.encoded, admits_iff.mpr (.inr ho.admitted), ?_⟩
      · exact (decode_of_operator h).trans (congrArg (Option.map operator) ho.decoded)
      · exact (decode_of_operator ho.admitted).trans (congrArg (Option.map operator) ho.redecoded)

theorem parse_of_datatype {v : Value} (h : Datatype.shape.Admits v) (path : Path) :
    parse v path = (Datatype.parse v path).map datatype := by
  obtain ⟨entries, rfl, -⟩ := Shape.admits_closed_iff.mp h
  have hkind : DefinitionKind.classify entries = .datatype := if_pos (Datatype.keys_of_admits h)
  simp only [parse, Value.entries?, hkind]

theorem parse_of_operator {v : Value} (h : OperatorDefinition.shape.Admits v) (path : Path) :
    parse v path = (OperatorDefinition.parse v path).map operator := by
  obtain ⟨entries, rfl, -⟩ := Shape.admits_closed_iff.mp h
  have hkind : DefinitionKind.classify entries = .operator :=
    if_neg (OperatorDefinition.keys_of_admits h)
  simp only [parse, Value.entries?, hkind]

/-- What is parsed by its keys is what the union of the two shapes accepts. -/
theorem parses (path : Path) : codec.Parses (parse · path) := by
  intro v d
  have hdatatypes := Datatype.codec.parses path v
  have hoperators := OperatorDefinition.codec.parses path v
  constructor
  · intro hparse
    -- The keys have told the kind before any shape is looked at, so only one parser has run.
    have hkinds : (∃ a, Datatype.parse v path = .ok a ∧ datatype a = d) ∨
        ∃ o, OperatorDefinition.parse v path = .ok o ∧ operator o = d := by
      simp only [parse] at hparse
      split at hparse
      · cases hparse
      · split at hparse
        · exact .inl (Except.map_eq_ok_iff.mp hparse)
        · exact .inr (Except.map_eq_ok_iff.mp hparse)
    rcases hkinds with ⟨a, ha, rfl⟩ | ⟨o, ho, rfl⟩
    · obtain ⟨hadmits, hdecode⟩ := (hdatatypes a).mp ha
      refine ⟨admits_iff.mpr (.inl hadmits), ?_⟩
      exact (decode_of_datatype hadmits).trans (congrArg (Option.map datatype) hdecode)
    · obtain ⟨hadmits, hdecode⟩ := (hoperators o).mp ho
      refine ⟨admits_iff.mpr (.inr hadmits), ?_⟩
      exact (decode_of_operator hadmits).trans (congrArg (Option.map operator) hdecode)
  · rintro ⟨hadmits, hdecode⟩
    change decode v = some d at hdecode
    rcases admits_iff.mp hadmits with h | h
    · rw [decode_of_datatype h] at hdecode
      obtain ⟨a, ha, rfl⟩ := Option.map_eq_some_iff.mp hdecode
      refine (parse_of_datatype h path).trans ?_
      exact congrArg (Except.map datatype) ((hdatatypes a).mpr ⟨h, ha⟩)
    · rw [decode_of_operator h] at hdecode
      obtain ⟨o, ho, rfl⟩ := Option.map_eq_some_iff.mp hdecode
      refine (parse_of_operator h path).trans ?_
      exact congrArg (Except.map operator) ((hoperators o).mpr ⟨h, ho⟩)

end Definition

namespace Catalog

def codec : Codec Catalog := Definition.codec.mapOf.wrapped Catalog.mk definitions

theorem codec_sound : codec.Sound := Definition.codec_sound.mapOf.wrapped fun _ => rfl

theorem parse_mapping (entries : SortedMap Value) (path : Path) :
    parse (.mapping entries) path =
      (entries.traverse fun id entry => Definition.parse entry (path.key id)).map Catalog.mk := by
  simp only [parse, Value.entries?]
  cases entries.traverse fun id entry => Definition.parse entry (path.key id) <;> rfl

/-- A catalog that is parsed has, under the same identifiers, what each entry is parsed as. -/
theorem of_parse {v : Value} {path : Path} {catalog : Catalog} (h : parse v path = .ok catalog) :
    ∃ (entries : SortedMap Value) (result : Fin entries.keys.length → Definition),
      v = .mapping entries ∧
      (∀ i, Definition.parse (entries.get i) (path.key (entries.keys.get i)) = .ok (result i)) ∧
      catalog = ⟨⟨entries.keys, entries.sorted, result⟩⟩ := by
  cases v with
  | mapping entries =>
    rw [parse_mapping] at h
    obtain ⟨definitions, hdefinitions, rfl⟩ := Except.map_eq_ok_iff.mp h
    obtain ⟨result, hresult, rfl⟩ := SortedMap.traverse_eq_ok hdefinitions
    exact ⟨entries, result, rfl, hresult, rfl⟩
  | _ => cases h

theorem parses (path : Path) : codec.Parses (parse · path) := by
  intro v catalog
  constructor
  · intro hparse
    obtain ⟨entries, result, rfl, hresult, rfl⟩ := of_parse hparse
    have hread (i : Fin entries.keys.length) :=
      (Definition.parses (path.key (entries.keys.get i)) _ _).mp (hresult i)
    refine ⟨⟨entries, rfl, fun id entry hentry => ⟨trivial, ?_⟩⟩, ?_⟩
    · obtain ⟨i, hi⟩ := List.mem_ofFn.mp hentry
      cases hi
      exact (hread i).1
    · exact congrArg (Option.map Catalog.mk) (SortedMap.traverse_eq_pure fun i => (hread i).2)
  · rintro ⟨⟨entries, rfl, hentries⟩, hdecode⟩
    have hmember (i : Fin entries.keys.length) : Definition.codec.shape.Admits (entries.get i) :=
      (hentries _ _ (List.mem_ofFn.mpr ⟨i, rfl⟩)).2
    choose result hresult using fun i => Definition.codec_sound.carries _ (hmember i)
    have hread : codec.decode (.mapping entries) =
        some ⟨⟨entries.keys, entries.sorted, result⟩⟩ :=
      congrArg (Option.map Catalog.mk) (SortedMap.traverse_eq_pure fun i => (hresult i).decoded)
    obtain rfl := Option.some.inj (hread.symm.trans hdecode)
    have htraverse : (entries.traverse fun id entry => Definition.parse entry (path.key id)) =
        .ok ⟨entries.keys, entries.sorted, result⟩ := by
      apply SortedMap.traverse_eq_pure
      intro i
      exact (Definition.parses _ _ _).mpr ⟨hmember i, (hresult i).decoded⟩
    exact (parse_mapping entries path).trans (congrArg (Except.map Catalog.mk) htraverse)

end Catalog

namespace SchemaDocument

/-- The places where a schema document may have nulls. -/
def nullable : List Place :=
  [[.key "title"], [.key "description"]] ++
    Place.behind (.key "definitions") (Place.behind .anyKey Definition.nullable)

def decode (v : Value) : Option SchemaDocument := do
  let record ← v.record? ["$schema", "$ref", "title", "description", "definitions"] false
  let metaSchema ← record.optional "$schema" Value.string?
  let root ← record.optional "$ref" Value.string?
  let title ← record.optional "title" Value.string?
  let description ← record.optional "description" Value.string?
  let definitions ← record.required "definitions" Catalog.codec.decode
  pure { metaSchema, root, title, description, definitions }

def codec : Codec SchemaDocument where
  shape := shapeOver Definition.codec.shape
  nullable := nullable
  decode := decode
  encode := toValue

theorem codec_sound : codec.Sound := by
  apply sound_of_record ["$schema", "$ref", "title", "description", "definitions"] rfl (by decide)
    (by decide)
  intro entries hfields _
  simp only [List.forall_mem_cons] at hfields
  obtain ⟨hschema, hroot, htitle, hdescription, hdefinitions, -⟩ := hfields
  obtain ⟨metaSchema, hschema⟩ := text_sound.optional nullable rfl hschema
  obtain ⟨root, hroot⟩ := text_sound.optional nullable rfl hroot
  obtain ⟨title, htitle⟩ := text_sound.nullable nullable rfl htitle
  obtain ⟨description, hdescription⟩ := text_sound.nullable nullable rfl hdescription
  obtain ⟨definitions, hdefinitions⟩ := Catalog.codec_sound.mandatory nullable
    (by simp [nullable, Catalog.codec, wrapped, mapOf, Definition.codec]) hdefinitions
  refine ⟨⟨metaSchema, root, title, description, definitions⟩, _, ?_, ?_, rfl, ?_, ?_⟩
  · rfl
  · intro m hm hkeys
    exact bind_some (record?_mapping hkeys) <| bind_some (hschema.read m hm) <|
      bind_some (hroot.read m hm) <| bind_some (htitle.read m hm) <|
      bind_some (hdescription.read m hm) <| bind_some (hdefinitions.read m hm) rfl
  · simp only [List.forall_mem_cons]
    exact ⟨hschema.written, hroot.written, htitle.written, hdescription.written,
      hdefinitions.written, List.forall_mem_nil _⟩
  · simp only [List.forall_mem_cons]
    exact ⟨hschema.admits, hroot.admits, htitle.admits, hdescription.admits, hdefinitions.admits,
      List.forall_mem_nil _⟩

def headFields : List Field := [
  .optional "$schema" .string,
  .optional "$ref" .string,
  .optional "title" .nullableString,
  .optional "description" .nullableString]

def withCatalog (entries : SortedMap Value) (definitions : Catalog) : SchemaDocument where
  metaSchema := (entries.find? "$schema").bind Value.string?
  root := (entries.find? "$ref").bind Value.string?
  title := (entries.find? "title").bind Value.string?
  description := (entries.find? "description").bind Value.string?
  definitions

/-- A mapping that says about itself what a document may say, and has a catalog. -/
structure Holds (entries : SortedMap Value) (catalog : Value) : Prop where
  head : ∀ field ∈ headFields, field.Admits entries
  keys : ∀ key ∈ entries.keys, key ∈ ["$schema", "$ref", "title", "description", "definitions"]
  catalog : entries.find? "definitions" = some catalog

theorem admits_shapeOver_iff {definition : Shape} {v : Value} :
    (shapeOver definition).Admits v ↔ ∃ entries catalog, v = .mapping entries ∧
      Holds entries catalog ∧ (Shape.keyed .any definition).Admits catalog := by
  rw [shapeOver, Shape.admits_closed_iff]
  constructor
  · rintro ⟨entries, rfl, hfields, hclosed⟩
    simp only [List.forall_mem_cons] at hfields
    obtain ⟨hschema, hroot, htitle, hdescription, ⟨hadmits, hpresent⟩, -⟩ := hfields
    obtain ⟨catalog, hcatalog⟩ := SortedMap.mem_keys_iff.mp (hpresent rfl)
    refine ⟨entries, catalog, rfl, ⟨?_, ?_, hcatalog⟩, hadmits catalog hcatalog⟩
    · simp only [headFields, List.forall_mem_cons]
      exact ⟨hschema, hroot, htitle, hdescription, List.forall_mem_nil _⟩
    · intro key hkey
      obtain ⟨field, hfield, rfl⟩ := hclosed key hkey
      exact List.mem_map_of_mem (f := Field.name) hfield
  · rintro ⟨entries, catalog, rfl, ⟨hhead, hkeys, hcatalog⟩, hadmits⟩
    refine ⟨entries, rfl, ?_, ?_⟩
    · simp only [headFields, List.forall_mem_cons] at hhead ⊢
      obtain ⟨hschema, hroot, htitle, hdescription, -⟩ := hhead
      refine ⟨hschema, hroot, htitle, hdescription, ⟨?_, ?_⟩, List.forall_mem_nil _⟩
      · intro v hv
        obtain rfl := Option.some.inj (hcatalog.symm.trans hv)
        exact hadmits
      · intro _
        exact SortedMap.mem_keys_iff.mpr ⟨catalog, hcatalog⟩
    · intro key hkey
      exact List.mem_map.mp (hkeys key hkey)

theorem optional_string {entries : SortedMap Value} {field : Field} (h : field.Admits entries)
    (hshape : field.shape.nullable = .nullableString) :
    Json.Record.optional entries.find? field.name Value.string? =
      some ((entries.find? field.name).bind Value.string?) := by
  unfold Json.Record.optional
  cases hfind : entries.find? field.name with
  | none => rfl
  | some v =>
    have hv : field.shape.nullable.Admits v := Shape.admits_nullable_iff.mpr (.inr (h.1 v hfind))
    rw [hshape, Shape.nullableString, Shape.admits_nullable_iff] at hv
    rcases hv with rfl | ⟨value, rfl⟩ | ⟨-, rfl⟩ <;> rfl

variable {entries : SortedMap Value} {catalog : Value}

theorem Holds.decode_eq (h : Holds entries catalog) :
    decode (.mapping entries) = (Catalog.codec.decode catalog).map (withCatalog entries) := by
  have hhead := h.head
  simp only [headFields, List.forall_mem_cons] at hhead
  obtain ⟨hschema, hroot, htitle, hdescription, -⟩ := hhead
  have hschema := optional_string hschema rfl
  have hroot := optional_string hroot rfl
  have htitle := optional_string htitle rfl
  have hdescription := optional_string hdescription rfl
  simp only [Field.optional] at hschema hroot htitle hdescription
  simp only [decode, record?_mapping h.keys, hschema, hroot, htitle, hdescription, h.catalog,
    Json.Record.required, Option.bind_eq_bind, Option.bind_some]
  cases Catalog.codec.decode catalog <;> rfl

theorem Holds.parse_eq (h : Holds entries catalog)
    (hcatalog : (Shape.keyed .any .anyMapping).Admits catalog) :
    parse (.mapping entries) = (Catalog.parse catalog (Path.root.key "definitions")).map
      (withCatalog entries) := by
  have hshape : shape.Admits (.mapping entries) :=
    admits_shapeOver_iff.mpr ⟨entries, catalog, rfl, h, hcatalog⟩
  have hcheck := (shape.check_eq_ok_iff (.mapping entries) .root).mpr hshape
  have hget : (Value.mapping entries).get? "definitions" = some catalog := h.catalog
  simp only [parse, hcheck, hget, Option.getD_some]
  cases Catalog.parse catalog (Path.root.key "definitions") <;> rfl

/-- A schema document that is parsed holds a catalog that is parsed, and says about itself what is
read from it. -/
theorem of_parse {v : Value} {document : SchemaDocument} (h : parse v = .ok document) :
    ∃ (entries : SortedMap Value) (catalog : Value) (definitions : Catalog),
      v = .mapping entries ∧ Holds entries catalog ∧
      Catalog.parse catalog (Path.root.key "definitions") = .ok definitions ∧
      document = withCatalog entries definitions := by
  have hshape : shape.Admits v := by
    rw [← shape.check_eq_ok_iff v .root]
    cases hcheck : shape.check v .root with
    | ok => rfl
    | error rejection =>
      simp only [parse, hcheck] at h
      cases h
  obtain ⟨entries, catalog, rfl, hholds, hcatalog⟩ := admits_shapeOver_iff.mp hshape
  rw [hholds.parse_eq hcatalog] at h
  obtain ⟨definitions, hdefinitions, rfl⟩ := Except.map_eq_ok_iff.mp h
  exact ⟨entries, catalog, definitions, rfl, hholds, hdefinitions, rfl⟩

/-- What encloses the catalog is checked first and the catalog afterwards, which comes to the same
as a check of the whole. -/
theorem parses : codec.Parses parse := by
  intro v document
  have hcatalogs (catalog : Value) := Catalog.parses (Path.root.key "definitions") catalog
  constructor
  · intro hparse
    obtain ⟨entries, catalog, definitions, rfl, hholds, hdefinitions, rfl⟩ := of_parse hparse
    obtain ⟨hadmits, hdecode⟩ := (hcatalogs catalog definitions).mp hdefinitions
    refine ⟨admits_shapeOver_iff.mpr ⟨entries, catalog, rfl, hholds, hadmits⟩, ?_⟩
    exact hholds.decode_eq.trans (congrArg (Option.map (withCatalog entries)) hdecode)
  · rintro ⟨hadmits, hdecode⟩
    obtain ⟨entries, catalog, rfl, hholds, hadmits⟩ := admits_shapeOver_iff.mp hadmits
    obtain ⟨definitions, hdefinitions, rfl⟩ :=
      Option.map_eq_some_iff.mp (hholds.decode_eq.symm.trans hdecode)
    have hcatalog : (Shape.keyed .any .anyMapping).Admits catalog := by
      obtain ⟨members, rfl, hmembers⟩ := hadmits
      refine ⟨members, rfl, fun id member hmember => ⟨trivial, ?_⟩⟩
      exact Definition.exists_entries (hmembers id member hmember).2
    rw [hholds.parse_eq hcatalog]
    have hparse := (hcatalogs catalog definitions).mpr ⟨hadmits, hdefinitions⟩
    exact congrArg (Except.map (withCatalog entries)) hparse

end SchemaDocument

end FlowContract
