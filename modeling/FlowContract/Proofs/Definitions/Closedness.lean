import FlowContract.Proofs.Definitions.Kinds
import FlowContract.Proofs.Definitions.Sources
import FlowContract.Proofs.Shape.Closedness

/-!
The mappings of definitions documents are closed at every depth. A key that is put into one of them
and is not declared there makes the document one that is refused. What is said is said against that
key, except within the declaration of a source, which the other two forms of it are tried on as
well, and in the entry of a datatype, which is taken for an operator as soon as it has another key.
-/

namespace FlowContract

open Json (Value)

/-- All mappings that a shape governs in parsed documents are closed: with one key more the document
is refused, and in the words for that key, unless the mapping is spared of them. -/
structure Shape.Closes {α : Type} (shape : Shape) (parse : Value → Except Rejection α)
    (spared : Path → SortedMap Value → Prop) : Prop where
  governs : ∀ v a path fields closed entries, parse v = .ok a →
    shape.Applies path.segments (.record fields closed) →
    path.resolve? v = some (.mapping entries) →
    ∃ fields closed, shape.Governs v path fields closed entries
  refuses : ∀ v a path fields closed entries key value, parse v = .ok a →
    shape.Governs v path fields closed entries → (∀ field ∈ fields, field.name ≠ key) →
    ∃ rejection, parse (v.withKey path key value) = .error rejection
  names : ∀ v a path fields closed entries key value, parse v = .ok a →
    shape.Governs v path fields closed entries → (∀ field ∈ fields, field.name ≠ key) →
    ¬ spared path entries →
    parse (v.withKey path key value) =
      .error ⟨path.key key, Shape.undeclared fields key, describe value, []⟩

namespace Codec

variable {α : Type} {f : Codec α} {parse : Value → Except Rejection α}
  {spared : Path → SortedMap Value → Prop}

/-- With a strict shape it remains to be shown which words are used. -/
theorem Parses.closes (hparse : f.Parses parse) (hstrict : f.shape.Strict)
    (hnames : ∀ v a path fields closed entries key value, parse v = .ok a →
      f.shape.Governs v path fields closed entries → (∀ field ∈ fields, field.name ≠ key) →
      ¬ spared path entries →
      parse (v.withKey path key value) =
        .error ⟨path.key key, Shape.undeclared fields key, describe value, []⟩) :
    f.shape.Closes parse spared where
  governs v a path fields closed entries hok happlies hresolve := by
    have hadmits := ((hparse v a).mp hok).1
    exact Shape.exists_governs hstrict happlies hadmits hresolve
  refuses v a path fields closed entries key value hok hgoverns hkey := by
    have hadmits := ((hparse v a).mp hok).1
    have hrefused := hgoverns.not_admits_withKey hstrict hadmits hkey value
    cases hresult : parse (v.withKey path key value) with
    | ok result => exact absurd ((hparse _ _).mp hresult).1 hrefused
    | error rejection => exact ⟨rejection, rfl⟩
  names := hnames

/-- A parser that refuses in the words of the check of its shape uses those for the key wherever no
union has a say. -/
theorem Parses.closes_of_check (hparse : f.Parses parse) (hstrict : f.shape.Strict)
    (hcheck : ∀ v rejection, f.shape.check v .root = .error rejection →
      parse v = .error rejection)
    (hsettled : ∀ path entries, ¬ spared path entries → f.shape.Settled path.segments) :
    f.shape.Closes parse spared := by
  apply hparse.closes hstrict
  intro v a path fields closed entries key value hok hgoverns hkey hspared
  have hadmits := ((hparse v a).mp hok).1
  apply hcheck
  exact hgoverns.check_withKey hstrict (hsettled path entries hspared) hadmits hkey value .root

end Codec

namespace Datatype

theorem strict_shape : shape.Strict := Shape.strict_of_layout (by decide)

theorem settled (segments : List Segment) : shape.Settled segments := Shape.settled_of_unions nofun

theorem closes : shape.Closes (parse · .root) fun _ _ => False := by
  apply (codec.parses .root).closes_of_check strict_shape
  · intro v rejection hcheck
    exact Codec.parse_of_error hcheck
  · intro path _ _
    exact settled path.segments

end Datatype

namespace DescriptorList

theorem strict_shape (version : SchemaVersion) : (shape version).Strict := by
  apply Shape.strict_of_layout
  cases version <;> decide

theorem settled (version : SchemaVersion) (segments : List Segment) :
    (shape version).Settled segments := by
  cases version <;> exact Shape.settled_of_unions nofun

theorem closes (version : SchemaVersion) :
    (shape version).Closes (parse version) fun _ _ => False := by
  apply (parses version).closes_of_check (strict_shape version)
  · intro v rejection hcheck
    rw [parse_eq, Except.map_eq_error_iff]
    exact (Descriptor.codec_sound version).listOf.parse_eq_error_iff.mpr hcheck
  · intro path _ _
    exact settled version path.segments

end DescriptorList

namespace OperatorDefinition

theorem strict_shape : shape.Strict := Shape.strict_of_layout (by decide)

theorem settled {path : Path} (h : ¬ InSource path) : shape.Settled path.segments := by
  apply Shape.settled_of_unions
  intro place variants hmem front rest hcovers heq
  rw [unions_shape, List.mem_singleton] at hmem
  cases hmem
  obtain ⟨slot, rfl⟩ := eq_sourcePlace_of_covers hcovers
  exact h ⟨slot, ⟨rest⟩, congrArg Path.mk heq⟩

theorem closes : shape.Closes (parse · .root) fun path _ => InSource path := by
  apply (codec.parses .root).closes_of_check strict_shape
  · intro v rejection hcheck
    exact Codec.parse_of_error hcheck
  · intro path _ hspared
    exact settled hspared

end OperatorDefinition

namespace DefinitionKind

theorem classify_of_admits {kind : DefinitionKind} {entries : SortedMap Value}
    (h : kind.shape.Admits (.mapping entries)) : classify entries = kind := by
  cases kind with
  | datatype => exact if_pos (Datatype.keys_of_admits h)
  | operator => exact if_neg (OperatorDefinition.keys_of_admits h)

theorem strict_shape (kind : DefinitionKind) : kind.shape.Strict := by
  cases kind with
  | datatype => exact Datatype.strict_shape
  | operator => exact OperatorDefinition.strict_shape

theorem mem_forms (kind : DefinitionKind) :
    kind.shape ∈ [Datatype.shape, OperatorDefinition.shape] := by
  cases kind with
  | datatype => exact List.mem_cons_self
  | operator => exact List.mem_cons_of_mem _ List.mem_cons_self

end DefinitionKind

namespace Definition

variable {entry members : SortedMap Value} {relative : Path} {kind : DefinitionKind}
  {fields : List Field} {closed : Bool} {key : String}

/-- A record that applies in the entry of a kind, and governs a mapping there, tells that the entry
is of this kind. -/
theorem admits_kind (happlies : kind.shape.Applies relative.segments (.record fields closed))
    (hadmits : codec.shape.Admits (.mapping entry))
    (hfound : relative.resolve? (.mapping entry) = some (.mapping members))
    (hfits : (Shape.record fields closed).Admits (.mapping members)) :
    kind.shape.Admits (.mapping entry) := by
  obtain ⟨segments⟩ := relative
  cases segments with
  | nil =>
    cases hfound
    obtain ⟨names, hnames⟩ : ∃ names, kind.shape.closedKeys? = some names := by
      cases kind <;> exact ⟨_, rfl⟩
    rwa [happlies.eq_of_closedKeys hnames] at hfits
  | cons segment rest =>
    have hapart : Shape.apart [Datatype.shape, OperatorDefinition.shape] = true := by decide
    exact Shape.admits_of_apart hapart kind.mem_forms happlies hadmits hfound

/-- An entry stays of its kind when a mapping in it gets a key, unless it is a datatype and gets the
key itself. -/
theorem withKey_entry (hadmits : kind.shape.Admits (.mapping entry))
    (hfound : relative.resolve? (.mapping entry) = some (.mapping members))
    (hspared : ¬ (relative = .root ∧ kind = .datatype)) (key : String) (value : Value) :
    ∃ entry', (Value.mapping entry).withKey relative key value = .mapping entry' ∧
      DefinitionKind.classify entry' = kind := by
  rw [Value.withKey_of_resolve? hfound]
  obtain ⟨segments⟩ := relative
  cases segments with
  | nil =>
    cases hfound
    cases kind with
    | datatype => exact absurd ⟨rfl, rfl⟩ hspared
    | operator =>
      have hkey : "properties" ∈ (entry.insert key value).keys :=
        SortedMap.mem_keys_insert.mpr (.inr (OperatorDefinition.mem_keys_of_admits hadmits))
      refine ⟨entry.insert key value, Value.replaceAt_nil _ _, if_neg ?_⟩
      intro hkeys
      rw [hkeys] at hkey
      revert hkey
      decide
  | cons segment rest =>
    rw [Path.resolve?_cons] at hfound
    obtain ⟨member, hmember, -⟩ := Option.bind_eq_some_iff.mp hfound
    cases segment with
    | index position => cases hmember
    | key name =>
      have hfind : entry.find? name = some member := hmember
      refine ⟨_, Value.replaceAt_key hfind rest _, ?_⟩
      have hname := SortedMap.mem_keys_iff.mpr ⟨member, hfind⟩
      rw [DefinitionKind.classify, SortedMap.keys_insert_of_mem hname]
      exact DefinitionKind.classify_of_admits hadmits

theorem parse_withKey (hadmits : kind.shape.Admits (.mapping entry))
    (hgoverns : kind.shape.Governs (.mapping entry) relative fields closed members)
    (hkey : ∀ field ∈ fields, field.name ≠ key)
    (hspared : ¬ (relative = .root ∧ kind = .datatype))
    (hsettled : kind.shape.Settled relative.segments) (value : Value) (path : Path) :
    ∃ entry', (Value.mapping entry).withKey relative key value = .mapping entry' ∧
      parse (.mapping entry') path = .error
        ⟨(path.within relative).key key, Shape.undeclared fields key, describe value, []⟩ := by
  obtain ⟨entry', hentry, hkind⟩ := withKey_entry hadmits hgoverns.found hspared key value
  refine ⟨entry', hentry, ?_⟩
  rw [parse_mapping_eq_error_iff, hkind, ← hentry]
  exact hgoverns.check_withKey kind.strict_shape hsettled hadmits hkey value path

end Definition

namespace SchemaDocument

variable {entries members : SortedMap Value}

theorem strict_shape : codec.shape.Strict := Shape.strict_of_layout (by decide)

/-- The shapes of a document apply to the whole of it or to the definition of one of the kinds. -/
theorem of_applies {segments : List Segment} {fields : List Field} {closed : Bool}
    (h : codec.shape.Applies segments (.record fields closed)) :
    segments = [] ∧ Shape.record fields closed = codec.shape ∨
      ∃ (id : String) (rest : List Segment) (kind : DefinitionKind),
        segments = .key "definitions" :: .key id :: rest ∧
        kind.shape.Applies rest (.record fields closed) := by
  cases h with
  | here => exact .inl ⟨rfl, rfl⟩
  | @field _ _ field rest _ hfield h =>
    simp only [List.mem_cons, List.not_mem_nil, or_false] at hfield
    rcases hfield with rfl | rfl | rfl | rfl | rfl
    · cases h
    · cases h
    · cases h
    · cases h
    · cases h with
      | member id h =>
        cases h with
        | variant hvariant h =>
          right
          rcases List.mem_pair.mp hvariant with rfl | rfl
          · exact ⟨id, _, .datatype, rfl, h⟩
          · exact ⟨id, _, .operator, rfl, h⟩

theorem parse_withKey_of_enclosing {v : Value} {document : SchemaDocument} {fields : List Field}
    {key : String} (hok : parse v = .ok document) (hrecord : Shape.record fields true = shape)
    (hentries : v = .mapping entries) (hkey : ∀ field ∈ fields, field.name ≠ key) (value : Value) :
    parse (v.withKey .root key value) =
      .error ⟨Path.root.key key, Shape.undeclared fields key, describe value, []⟩ := by
  have hadmits : shape.Admits v := by
    rw [← shape.check_eq_ok_iff v .root]
    cases hcheck : shape.check v .root with
    | ok => rfl
    | error rejection => cases hok.symm.trans (parse_eq_error_iff.mpr (.enclosing hcheck))
  have hstrict : shape.Strict := Shape.strict_of_layout (by decide)
  have hgoverns : shape.Governs v .root fields true entries := by
    refine ⟨?_, congrArg some hentries, ?_⟩
    · rw [hrecord]
      exact .here shape
    · rw [hrecord, ← hentries]
      exact hadmits
  have hcheck := hgoverns.check_withKey hstrict (Shape.settled_of_unions nofun) hadmits hkey value
  exact parse_eq_error_iff.mpr (.enclosing (hcheck .root))

/-- With another catalog a document holds this one, in what it held the one before. -/
theorem Holds.insert_catalog {catalog : Value} (h : Holds entries catalog) (new : Value) :
    Holds (entries.insert "definitions" new) new where
  head field hfield := by
    have hfresh : ∀ field ∈ headFields, field.name ≠ "definitions" := by decide
    exact (h.head field hfield).insert (hfresh field hfield) new
  keys key hkey := by
    rcases SortedMap.mem_keys_insert.mp hkey with rfl | hkey
    · decide
    · exact h.keys key hkey
  catalog := SortedMap.find?_insert_self _ _ _

/-- With another entry in its catalog a document is refused for that entry, as the others are what
they were. -/
theorem parse_insert_entry {document : SchemaDocument} {id : String} {entry : SortedMap Value}
    {rejection : Rejection} (hok : parse (.mapping entries) = .ok document)
    (hcatalog : entries.find? "definitions" = some (.mapping members))
    (hentry : Definition.parse (.mapping entry) (placeOf id) = .error rejection) :
    parse (.mapping
      (entries.insert "definitions" (.mapping (members.insert id (.mapping entry))))) =
        .error rejection := by
  obtain ⟨_, _, definitions, heq, hholds, hparse, -⟩ := of_parse hok
  cases heq
  cases hcatalog.symm.trans hholds.catalog
  have hothers {other : String} {v : Value} (hother : members.find? other = some v) :
      ∃ definition, Definition.parse v (placeOf other) = .ok definition := by
    obtain ⟨definition, -, hdefinition⟩ := Catalog.find?_of_parse hparse hother
    exact ⟨definition, hdefinition⟩
  have hholds' := hholds.insert_catalog (.mapping (members.insert id (.mapping entry)))
  have hmappings : ∀ other v, (members.insert id (.mapping entry)).find? other = some v →
      ∃ fields, v = .mapping fields := by
    intro other v hother
    by_cases hsame : other = id
    · subst hsame
      rw [SortedMap.find?_insert_self] at hother
      cases hother
      exact ⟨entry, rfl⟩
    · rw [SortedMap.find?_insert_of_ne hsame] at hother
      obtain ⟨definition, hdefinition⟩ := hothers hother
      obtain ⟨fields, hfields, -⟩ := Definition.kind_of_parse hdefinition
      exact ⟨fields, hfields⟩
  rw [hholds'.parse_mapping_eq hmappings, Except.map_eq_error_iff,
    Catalog.parse_mapping_eq_error_iff]
  refine ⟨id, .mapping entry, SortedMap.find?_insert_self _ _ _, hentry, ?_⟩
  intro earlier other hother hlt
  rw [SortedMap.find?_insert_of_ne] at hother
  · exact hothers hother
  · rintro rfl
    exact String.lt_irrefl _ hlt

/-- A mapping of which another one may be taken for: the entry of a datatype, and what lies within
the declaration of a source. -/
def Spared (path : Path) (entries : SortedMap Value) : Prop :=
  ∃ id, path = placeOf id ∧ DefinitionKind.classify entries = .datatype ∨
    ∃ relative, path = (placeOf id).within relative ∧ OperatorDefinition.InSource relative

/-- One shape closes all of a document, although none of its checks is made with this shape. -/
theorem closes : codec.shape.Closes parse Spared := by
  apply parses.closes strict_shape
  intro v document path fields closed entries key value hok hgoverns hkey hspared
  obtain ⟨segments⟩ := path
  rcases of_applies hgoverns.applies with ⟨rfl, hrecord⟩ | ⟨id, rest, kind, rfl, happlies⟩
  · cases (show Shape.record fields closed = .record _ true from hrecord)
    have hentries := Option.some.inj hgoverns.found
    -- The wording has the names of the fields only, which do not depend on what definitions are.
    have hnames := List.forall_mem_map.mpr hkey
    have hparse := parse_withKey_of_enclosing hok rfl hentries (List.forall_mem_map.mp hnames) value
    exact hparse
  · obtain ⟨top, catalog, definitions, rfl, hholds, hcatalog, -⟩ := of_parse hok
    obtain ⟨members, _, rfl, -, -⟩ := Catalog.of_parse hcatalog
    have hdefinitions : (Segment.key "definitions").follow? (.mapping top) =
        some (.mapping members) := hholds.catalog
    have hfound := hgoverns.found
    rw [Path.resolve?_cons, hdefinitions, Option.bind_some, Path.resolve?_cons] at hfound
    obtain ⟨member, hmember, hresolve⟩ := Option.bind_eq_some_iff.mp hfound
    have hfind : members.find? id = some member := hmember
    obtain ⟨definition, -, hdefinition⟩ := Catalog.find?_of_parse hcatalog hfind
    obtain ⟨entry, rfl, -⟩ := Definition.kind_of_parse hdefinition
    have hadmits := ((Definition.parses _ _ _).mp hdefinition).1
    have hkind := Definition.admits_kind happlies hadmits hresolve hgoverns.fits
    have hentry : kind.shape.Governs (.mapping entry) ⟨rest⟩ fields closed entries :=
      ⟨happlies, hresolve, hgoverns.fits⟩
    have hitself : ¬ (Path.mk rest = .root ∧ kind = .datatype) := by
      rintro ⟨heq, rfl⟩
      cases heq
      cases hresolve
      exact hspared ⟨id, .inl ⟨rfl, DefinitionKind.classify_of_admits hkind⟩⟩
    have hsettled : kind.shape.Settled rest := by
      cases kind with
      | datatype => exact Datatype.settled rest
      | operator =>
        have hsource : ¬ OperatorDefinition.InSource ⟨rest⟩ := by
          intro hsource
          exact hspared ⟨id, .inr ⟨⟨rest⟩, rfl, hsource⟩⟩
        exact OperatorDefinition.settled hsource
    obtain ⟨entry', hentry', hparse⟩ :=
      Definition.parse_withKey hkind hentry hkey hitself hsettled value (placeOf id)
    rw [Value.withKey_of_resolve? hgoverns.found, Value.replaceAt_key hholds.catalog,
      Value.replaceAt_key hfind, ← Value.withKey_of_resolve? hresolve, hentry']
    exact parse_insert_entry hok hholds.catalog hparse

end SchemaDocument

/-- Datatypes, operators, lists of descriptors of both revisions and schema documents have no room
for a key that is not declared: a parsed document with one more in any of its mappings is refused,
and in the words for this key, in its place, unless another form of a source or another kind of
definition comes into question. -/
theorem mappings_are_closed_at_every_depth :
    Datatype.shape.Closes (Datatype.parse · .root) (fun _ _ => False) ∧
    OperatorDefinition.shape.Closes (OperatorDefinition.parse · .root)
      (fun path _ => OperatorDefinition.InSource path) ∧
    (∀ version, (DescriptorList.shape version).Closes (DescriptorList.parse version)
      (fun _ _ => False)) ∧
    SchemaDocument.codec.shape.Closes SchemaDocument.parse SchemaDocument.Spared := by
  refine ⟨Datatype.closes, OperatorDefinition.closes, ?_, SchemaDocument.closes⟩
  intro version
  exact DescriptorList.closes version

/-! ### One key too many in an operator -/

/-- Where an operator declares a parameter. -/
def OperatorDefinition.paramPlace (name : String) : Path :=
  ⟨[.key "properties", .key "params", .key "properties", .key name]⟩

theorem Slots.applies_declaration (declaration : Shape) (name : String) :
    (Slots.shape declaration).Applies [.key "properties", .key name] declaration :=
  .field (show Field.optional "properties" (Shape.keyed .any declaration).nullable ∈ _ by simp)
    (.inner (.member name (.here declaration)))

theorem OperatorDefinition.applies_param (name : String) :
    shape.Applies (paramPlace name).segments ParamDefinition.shape :=
  .field (show Field.mandatory "properties" propertiesShape ∈ _ by simp)
    (.field (show Field.mandatory "params" (Slots.shape ParamDefinition.shape) ∈ _ by simp)
      (Slots.applies_declaration _ name))

theorem OperatorDefinition.applies_source (slot : String) :
    shape.Applies (sourcePlace slot).segments SourceDefinition.shape :=
  .field (show Field.mandatory "properties" propertiesShape ∈ _ by simp)
    (.field (show Field.optional "sources" (Slots.shape _).nullable ∈ _ by simp)
      (.inner (Slots.applies_declaration _ slot)))

theorem SchemaDocument.applies_operator (id : String) :
    codec.shape.Applies (placeOf id).segments OperatorDefinition.shape :=
  .field (show Field.mandatory "definitions" (.keyed .any Definition.codec.shape) ∈ _ by simp)
    (.member id (.variant (DefinitionKind.mem_forms .operator) (.here _)))

/-- What an operator declares about its one parameter, and about its one source. -/
def oneParam : SortedMap Value := .ofList [("type", .string "string")]

def oneSource : SortedMap Value := .ofList [("items", .ofPairs [("$ref", .string "T")])]

/-- A schema document with this operator. -/
def oneOperator : Value := .ofPairs [("definitions", .ofPairs [("Op", .ofPairs [("properties",
  .ofPairs [
    ("type", .ofPairs [("enum", .list [.string "Op"])]),
    ("params", .ofPairs [("properties", .ofPairs [("p", .mapping oneParam)])]),
    ("sources", .ofPairs [("properties", .ofPairs [("s", .mapping oneSource)])])])])])]

def oneParamPlace : Path :=
  (SchemaDocument.placeOf "Op").within (OperatorDefinition.paramPlace "p")

def oneSourcePlace : Path :=
  (SchemaDocument.placeOf "Op").within (OperatorDefinition.sourcePlace "s")

theorem governs_oneParam : ∃ fields,
    SchemaDocument.codec.shape.Governs oneOperator oneParamPlace fields true oneParam ∧
      ∀ field ∈ fields, field.name ≠ "unit" := by
  have hparam := OperatorDefinition.applies_param "p"
  have happlies := (SchemaDocument.applies_operator "Op").trans hparam
  exact ⟨_, ⟨happlies, rfl, Shape.accepts_eq_true_iff.mp rfl⟩, by decide⟩

theorem governs_oneSource : ∃ fields,
    SchemaDocument.codec.shape.Governs oneOperator oneSourcePlace fields true oneSource ∧
      ∀ field ∈ fields, field.name ≠ "$ref" := by
  have harray : SourceDefinition.shape.Applies [] SourceDefinition.arrayShape :=
    .variant (by simp) (.here _)
  have hsource := (OperatorDefinition.applies_source "s").trans harray
  have happlies := (SchemaDocument.applies_operator "Op").trans hsource
  exact ⟨_, ⟨happlies, rfl, Shape.accepts_eq_true_iff.mp rfl⟩, by decide⟩

theorem not_spared_oneParam : ¬ SchemaDocument.Spared oneParamPlace oneParam := by
  rintro ⟨id, ⟨hplace, -⟩ | ⟨relative, hplace, slot, inner, rfl⟩⟩
  · cases hplace
  · have hsegment : some (Segment.key "params") = some (Segment.key "sources") :=
      congrArg (·.segments[3]?) hplace
    exact absurd hsegment (by decide)

/-- A document with an operator is parsed. With a unit for its parameter it is refused for the unit;
it is refused as well if the source, which is a list, refers to a type itself, as a single source
would. -/
theorem stray_keys_of_operator_are_refused :
    (∃ document, SchemaDocument.parse oneOperator = .ok document) ∧
    (∃ fields,
      SchemaDocument.codec.shape.Governs oneOperator oneParamPlace fields true oneParam ∧
      (∀ field ∈ fields, field.name ≠ "unit") ∧ ¬ SchemaDocument.Spared oneParamPlace oneParam ∧
      SchemaDocument.parse (oneOperator.withKey oneParamPlace "unit" .null) =
        .error ⟨oneParamPlace.key "unit", Shape.undeclared fields "unit", "null", []⟩) ∧
    ∃ fields,
      SchemaDocument.codec.shape.Governs oneOperator oneSourcePlace fields true oneSource ∧
      (∀ field ∈ fields, field.name ≠ "$ref") ∧
      ∃ rejection, SchemaDocument.parse (oneOperator.withKey oneSourcePlace "$ref" (.string "T")) =
        .error rejection := by
  obtain ⟨document, hparse⟩ : ∃ document, SchemaDocument.parse oneOperator = .ok document :=
    ⟨_, rfl⟩
  obtain ⟨paramFields, hparam, hunit⟩ := governs_oneParam
  obtain ⟨sourceFields, hsource, hreference⟩ := governs_oneSource
  have hcloses := mappings_are_closed_at_every_depth.2.2.2
  refine ⟨⟨document, hparse⟩, ?_, ?_⟩
  · have hnamed := hcloses.names _ _ _ _ _ _ "unit" .null hparse hparam hunit not_spared_oneParam
    exact ⟨paramFields, hparam, hunit, not_spared_oneParam, hnamed⟩
  · have hrefused := hcloses.refuses _ _ _ _ _ _ "$ref" (.string "T") hparse hsource hreference
    exact ⟨sourceFields, hsource, hreference, hrefused⟩

/-- With a title a datatype is taken for an operator, which is told that it has no `oneOf`. -/
example : ∃ rejection, SchemaDocument.parse ((Value.ofPairs [("definitions", .ofPairs [("Raster",
    .ofPairs [("oneOf", .list [])])])]).withKey (SchemaDocument.placeOf "Raster") "title"
      (.string "Raster data")) = .error rejection ∧
    rejection.path = (SchemaDocument.placeOf "Raster").key "oneOf" :=
  ⟨_, rfl, rfl⟩

/-- The records of an operator are in these places. -/
example : (OperatorDefinition.shape.layout.filter (·.2.closedKeys?.isSome)).map Prod.fst =
    [[], [.key "properties"], [.key "properties", .key "type"], [.key "properties", .key "params"],
      [.key "properties", .key "params", .key "properties", .anyKey],
      [.key "properties", .key "sources"],
      [.key "properties", .key "sources", .key "properties", .anyKey],
      [.key "properties", .key "sources", .key "properties", .anyKey],
      [.key "properties", .key "sources", .key "properties", .anyKey, .key "items"],
      [.key "properties", .key "sources", .key "properties", .anyKey],
      [.key "properties", .key "sources", .key "properties", .anyKey, .key "anyOf", .anyIndex]] :=
  rfl

end FlowContract
