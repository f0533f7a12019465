import FlowContract.Proofs.Definitions.Classification

/-!
One shape for schema documents. A document is parsed in stages: what encloses the catalog is
checked, the entries are taken out, the keys of an entry tell its kind, and the entry has to fit the
shape of that kind. Main statement: this accepts what a single shape accepts in which an entry may
have either of the two shapes, and refuses in the words of one of the two checks.
-/

namespace FlowContract

open Json (Value)

namespace Definition

theorem not_both {v : Value} (h : Datatype.shape.Admits v) :
    ¬ OperatorDefinition.shape.Admits v := by
  intro hoperator
  obtain ⟨entries, rfl, -⟩ := Shape.admits_closed_iff.mp h
  exact OperatorDefinition.keys_of_admits hoperator (Datatype.keys_of_admits h)

theorem kind_of_parse {v : Value} {path : Path} {definition : Definition}
    (h : parse v path = .ok definition) :
    ∃ entries, v = .mapping entries ∧ definition.kind = DefinitionKind.classify entries ∧
      definition.kind.shape.Admits v := by
  simp only [parse] at h
  split at h
  · cases h
  · rename_i entries hentries
    obtain rfl := Value.entries?_eq_some_iff.mp hentries
    refine ⟨entries, rfl, ?_⟩
    split at h
    · rename_i hkind
      obtain ⟨datatype, hparse, rfl⟩ := Except.map_eq_ok_iff.mp h
      exact ⟨hkind.symm, ((Datatype.codec.parses path _ _).mp hparse).1⟩
    · rename_i hkind
      obtain ⟨operator, hparse, rfl⟩ := Except.map_eq_ok_iff.mp h
      exact ⟨hkind.symm, ((OperatorDefinition.codec.parses path _ _).mp hparse).1⟩

/-- A definition is of the kind of its entry: it is a datatype exactly if the shape of datatypes
accepts the entry, which comes to its only key being `oneOf`. -/
structure KindOf (entry : Value) (definition : Definition) : Prop where
  datatype_iff : definition.kind = .datatype ↔ Datatype.shape.accepts entry = true
  only_key : Datatype.shape.accepts entry = true ↔
    ∃ entries, entry = .mapping entries ∧ entries.keys = ["oneOf"]

theorem kindOf_parse {v : Value} {path : Path} {definition : Definition}
    (h : parse v path = .ok definition) : KindOf v definition := by
  obtain ⟨entries, rfl, hkind, hadmits⟩ := kind_of_parse h
  have hkeys : definition.kind = .datatype ↔ entries.keys = ["oneOf"] := by
    rw [hkind, DefinitionKind.classify]
    split <;> simp_all
  have hshape : definition.kind = .datatype ↔ Datatype.shape.Admits (.mapping entries) := by
    constructor
    · intro hdatatype
      rw [hdatatype] at hadmits
      exact hadmits
    · intro hdatatype
      exact hkeys.mpr (Datatype.keys_of_admits hdatatype)
  rw [← Shape.accepts_eq_true_iff] at hshape
  refine ⟨hshape, ?_⟩
  rw [← hshape, hkeys]
  simp

theorem parse_mapping_eq_error_iff {entry : SortedMap Value} {path : Path} {rejection : Rejection} :
    parse (.mapping entry) path = .error rejection ↔
      (DefinitionKind.classify entry).shape.check (.mapping entry) path = .error rejection := by
  simp only [parse, Value.entries?]
  cases DefinitionKind.classify entry with
  | datatype =>
    rw [Except.map_eq_error_iff]
    exact Datatype.codec_sound.parse_eq_error_iff
  | operator =>
    rw [Except.map_eq_error_iff]
    exact OperatorDefinition.codec_sound.parse_eq_error_iff

end Definition

namespace Catalog

/-- A catalog is refused for the least identifier under which there is no definition, in the words
for the entry there. -/
theorem parse_mapping_eq_error_iff {entries : SortedMap Value} {path : Path}
    {rejection : Rejection} :
    parse (.mapping entries) path = .error rejection ↔ ∃ id entry, entries.find? id = some entry ∧
      Definition.parse entry (path.key id) = .error rejection ∧
      ∀ earlier other, entries.find? earlier = some other → earlier < id →
        ∃ definition, Definition.parse other (path.key earlier) = .ok definition := by
  rw [parse_mapping, Except.map_eq_error_iff, SortedMap.traverse_eq_error_iff]

theorem find?_of_parse {entries : SortedMap Value} {path : Path} {catalog : Catalog}
    (h : parse (.mapping entries) path = .ok catalog) {id : String} {entry : Value}
    (hentry : entries.find? id = some entry) :
    ∃ definition, catalog.find? id = some definition ∧
      Definition.parse entry (path.key id) = .ok definition := by
  obtain ⟨_, result, heq, hresult, rfl⟩ := of_parse h
  cases heq
  obtain ⟨i, rfl, rfl⟩ := SortedMap.find?_eq_some_iff.mp hentry
  let definitions : SortedMap Definition := ⟨entries.keys, entries.sorted, result⟩
  exact ⟨result i, definitions.find?_get i, hresult i⟩

end Catalog

namespace SchemaDocument

/-- Where an entry of the catalog stands in the document. -/
def placeOf (id : String) : Path := (Path.root.key "definitions").key id

/-- Behind the first stage there are only mappings: the catalog is one, and so is each entry. -/
theorem mappings_of_admits {v : Value} (h : shape.Admits v) :
    ∃ entries members, v = .mapping entries ∧ Holds entries (.mapping members) ∧
      ∀ id entry, members.find? id = some entry → ∃ fields, entry = .mapping fields := by
  obtain ⟨entries, catalog, rfl, hholds, members, rfl, hmembers⟩ := admits_shapeOver_iff.mp h
  refine ⟨entries, members, rfl, hholds, fun id entry hentry => ?_⟩
  exact (hmembers id entry (SortedMap.mem_entries_iff.mpr hentry)).2

theorem Holds.parse_mapping_eq {entries members : SortedMap Value}
    (h : Holds entries (.mapping members))
    (hmembers : ∀ id entry, members.find? id = some entry → ∃ fields, entry = .mapping fields) :
    parse (.mapping entries) = (Catalog.parse (.mapping members) (Path.root.key "definitions")).map
      (withCatalog entries) := by
  refine h.parse_eq ⟨members, rfl, fun id entry hentry => ⟨trivial, ?_⟩⟩
  exact hmembers id entry (SortedMap.mem_entries_iff.mp hentry)

/-- Why a document is refused: for what encloses the catalog, or else for the first entry that does
not fit the shape of its kind. -/
inductive Refuses (v : Value) (rejection : Rejection) : Prop where
  | enclosing (h : shape.check v .root = .error rejection)
  | entry {members entry : SortedMap Value} {id : String}
      (hshape : shape.check v .root = .ok ())
      (hcatalog : v.get? "definitions" = some (.mapping members))
      (hentry : members.find? id = some (.mapping entry))
      (hcheck : (DefinitionKind.classify entry).shape.check (.mapping entry) (placeOf id) =
        .error rejection)
      (hearlier : ∀ earlier other, members.find? earlier = some other → earlier < id →
        ∃ definition, Definition.parse other (placeOf earlier) = .ok definition)

theorem parse_eq_error_iff {v : Value} {rejection : Rejection} :
    parse v = .error rejection ↔ Refuses v rejection := by
  cases hcheck : shape.check v .root with
  | error found =>
    have hparse : parse v = .error found := by
      simp only [parse, hcheck]
      rfl
    rw [hparse]
    constructor
    · rintro heq
      cases heq
      exact .enclosing hcheck
    · rintro (henclosing | ⟨hshape, -, -, -, -⟩)
      · cases henclosing.symm.trans hcheck
        rfl
      · rw [hcheck] at hshape
        cases hshape
  | ok =>
    obtain ⟨entries, members, rfl, hholds, hmembers⟩ :=
      mappings_of_admits ((shape.check_eq_ok_iff v .root).mp hcheck)
    rw [hholds.parse_mapping_eq hmembers, Except.map_eq_error_iff,
      Catalog.parse_mapping_eq_error_iff]
    constructor
    · rintro ⟨id, entry, hentry, herror, hearlier⟩
      obtain ⟨fields, rfl⟩ := hmembers id entry hentry
      exact .entry hcheck hholds.catalog hentry
        (Definition.parse_mapping_eq_error_iff.mp herror) hearlier
    · rintro (henclosing | ⟨-, hcatalog, hentry, herror, hearlier⟩)
      · rw [hcheck] at henclosing
        cases henclosing
      · cases hholds.catalog.symm.trans hcatalog
        exact ⟨_, _, hentry, Definition.parse_mapping_eq_error_iff.mpr herror, hearlier⟩

theorem exists_parse_iff {v : Value} :
    (∃ document, parse v = .ok document) ↔ codec.shape.Admits v :=
  codec_sound.exists_parse_iff parses

theorem admits_shapeOver_congr {definition definition' : Shape}
    (h : ∀ v, definition.Admits v ↔ definition'.Admits v) {v : Value} :
    (shapeOver definition).Admits v ↔ (shapeOver definition').Admits v := by
  simp only [admits_shapeOver_iff, Shape.Admits, h]

/-- Each entry of a parsed document has become a definition of its kind. -/
theorem kindOf_entry {v : Value} {document : SchemaDocument} (h : parse v = .ok document)
    {id : String} {entry : Value}
    (hentry : (v.get? "definitions").bind (·.get? id) = some entry) :
    ∃ definition, document.definitions.find? id = some definition ∧ definition.KindOf entry := by
  obtain ⟨entries, catalog, definitions, rfl, hholds, hparse, rfl⟩ := of_parse h
  have hcatalog : (Value.mapping entries).get? "definitions" = some catalog := hholds.catalog
  obtain ⟨members, _, rfl, -, -⟩ := Catalog.of_parse hparse
  rw [hcatalog] at hentry
  obtain ⟨definition, hfind, hdefinition⟩ := Catalog.find?_of_parse hparse hentry
  exact ⟨definition, hfind, Definition.kindOf_parse hdefinition⟩

end SchemaDocument

/-- The stages of parsing a schema document come to one shape, in which an entry of the catalog is
either a datatype or an operator, whichever is tried first. No value is both, and a parsed entry is
of the kind whose shape it has. A document is refused by the check of what encloses the catalog, or
by that of an entry's kind, and by no other stage: whatever has passed the first check holds
mappings only, and whatever fits the shape of a kind is decoded. -/
theorem schema_document_stages_come_to_one_shape :
    (∀ v, (∃ document, SchemaDocument.parse v = .ok document) ↔
      (SchemaDocument.shapeOver (.union [Datatype.shape, OperatorDefinition.shape])).accepts v =
        true) ∧
    (∀ v, (∃ document, SchemaDocument.parse v = .ok document) ↔
      (SchemaDocument.shapeOver (.union [OperatorDefinition.shape, Datatype.shape])).accepts v =
        true) ∧
    (∀ v, ¬ (Datatype.shape.accepts v = true ∧ OperatorDefinition.shape.accepts v = true)) ∧
    (∀ v document id entry, SchemaDocument.parse v = .ok document →
      (v.get? "definitions").bind (·.get? id) = some entry →
      ∃ definition, document.definitions.find? id = some definition ∧ definition.KindOf entry) ∧
    (∀ v rejection, SchemaDocument.parse v = .error rejection ↔
      SchemaDocument.Refuses v rejection) ∧
    (∀ v, SchemaDocument.shape.accepts v = true →
      ∃ members, v.get? "definitions" = some (.mapping members) ∧
        ∀ id entry, members.find? id = some entry → ∃ fields, entry = .mapping fields) ∧
    (∀ v, Datatype.shape.accepts v = true → ∃ datatype, Datatype.decode v = some datatype) ∧
    ∀ v, OperatorDefinition.shape.accepts v = true →
      ∃ operator, OperatorDefinition.decode v = some operator := by
  simp only [Shape.accepts_eq_true_iff]
  refine ⟨?_, ?_, ?_, ?_, ?_, ?_, ?_, ?_⟩
  · intro v
    exact SchemaDocument.exists_parse_iff
  · intro v
    rw [SchemaDocument.exists_parse_iff]
    apply SchemaDocument.admits_shapeOver_congr
    intro entry
    rw [Definition.admits_iff]
    simp only [Shape.Admits, Shape.AdmitsSome, or_false]
    exact or_comm
  · rintro v ⟨hdatatype, hoperator⟩
    exact Definition.not_both hdatatype hoperator
  · intro v document id entry hparse hentry
    exact SchemaDocument.kindOf_entry hparse hentry
  · intro v rejection
    exact SchemaDocument.parse_eq_error_iff
  · intro v hadmits
    obtain ⟨entries, members, rfl, hholds, hmembers⟩ := SchemaDocument.mappings_of_admits hadmits
    exact ⟨members, hholds.catalog, hmembers⟩
  · intro v hadmits
    obtain ⟨datatype, hcarries⟩ := Datatype.codec_sound.carries v hadmits
    exact ⟨datatype, hcarries.decoded⟩
  · intro v hadmits
    obtain ⟨operator, hcarries⟩ := OperatorDefinition.codec_sound.carries v hadmits
    exact ⟨operator, hcarries.decoded⟩

end FlowContract
