import FlowContract.Definitions.Catalog
import FlowContract.Definitions.Descriptor
import FlowContract.Proofs.Definitions.Codec

/-!
The formats of the definitions are sound: of every record that a shape describes, the reader reads
each key under the name and with the nulls that the shape has for it, and the writer writes it back
there. The places where a definition may have nulls are listed here.
-/

namespace FlowContract

open Json (Value)
open Codec

namespace Reference

def codec : Codec Reference := ⟨shape, [], decode, toValue⟩

theorem codec_sound : codec.Sound := by
  apply sound_of_record ["$ref"] rfl (by decide) (by decide)
  intro entries hfields _
  simp only [List.forall_mem_cons] at hfields
  obtain ⟨htarget, -⟩ := hfields
  obtain ⟨target, htarget⟩ := text_sound.mandatory [] rfl htarget
  refine ⟨⟨target⟩, _, ?_, ?_, rfl, ?_, ?_⟩
  · rfl
  · intro m hm hkeys
    exact bind_some (record?_mapping hkeys) (bind_some (htarget.read m hm) rfl)
  · simp only [List.forall_mem_cons]
    exact ⟨htarget.written, List.forall_mem_nil _⟩
  · simp only [List.forall_mem_cons]
    exact ⟨htarget.admits, List.forall_mem_nil _⟩

theorem decode_eq_none {entries : SortedMap Value} {name : String} (hkey : name ∈ entries.keys)
    (h : name ≠ "$ref") : decode (.mapping entries) = none := by
  unfold decode
  rw [record?_mapping_eq_none _ hkey (by simpa using h)]
  rfl

end Reference

namespace Datatype

def codec : Codec Datatype := ⟨shape, [], decode, toValue⟩

theorem codec_sound : codec.Sound := by
  apply sound_of_record ["oneOf"] rfl (by decide) (by decide)
  intro entries hfields _
  simp only [List.forall_mem_cons] at hfields
  obtain ⟨honeOf, -⟩ := hfields
  obtain ⟨oneOf, honeOf⟩ := Reference.codec_sound.listOf.mandatory [] rfl honeOf
  refine ⟨⟨oneOf⟩, _, ?_, ?_, rfl, ?_, ?_⟩
  · rfl
  · intro m hm hkeys
    exact bind_some (record?_mapping hkeys) (bind_some (honeOf.read m hm) rfl)
  · simp only [List.forall_mem_cons]
    exact ⟨honeOf.written, List.forall_mem_nil _⟩
  · simp only [List.forall_mem_cons]
    exact ⟨honeOf.admits, List.forall_mem_nil _⟩

end Datatype

namespace ParamDefinition

/-- The places where a parameter may have nulls. What its fragments hold is not among them. -/
def nullable : List Place :=
  [[.key "title"], [.key "help_text"], [.key "format"], [.key "items"], [.key "properties"]]

def codec : Codec ParamDefinition := ⟨shape, nullable, decode, toValue⟩

theorem codec_sound : codec.Sound := by
  apply sound_of_record ["type", "title", "help_text", "format", "items", "properties"] rfl
    (by decide) (by decide)
  intro entries hfields _
  simp only [List.forall_mem_cons] at hfields
  obtain ⟨htype, htitle, hhelp, hformat, hitems, hproperties, -⟩ := hfields
  obtain ⟨typeName, htype⟩ := text_sound.mandatory nullable rfl htype
  obtain ⟨title, htitle⟩ := text_sound.nullable nullable rfl htitle
  obtain ⟨helpText, hhelp⟩ := text_sound.nullable nullable rfl hhelp
  obtain ⟨format, hformat⟩ := text_sound.nullable nullable rfl hformat
  obtain ⟨items, hitems⟩ := fragment_sound.nullable nullable rfl hitems
  obtain ⟨properties, hproperties⟩ := fragment_sound.nullable nullable rfl hproperties
  refine ⟨⟨typeName, title, helpText, format, items, properties⟩, _, ?_, ?_, rfl, ?_, ?_⟩
  · rfl
  · intro m hm hkeys
    exact bind_some (record?_mapping hkeys) <| bind_some (htype.read m hm) <|
      bind_some (htitle.read m hm) <| bind_some (hhelp.read m hm) <|
      bind_some (hformat.read m hm) <| bind_some (hitems.read m hm) <|
      bind_some (hproperties.read m hm) rfl
  · simp only [List.forall_mem_cons]
    exact ⟨htype.written, htitle.written, hhelp.written, hformat.written,
      hitems.written.trans Option.map_id_apply, hproperties.written.trans Option.map_id_apply,
      List.forall_mem_nil _⟩
  · simp only [List.forall_mem_cons]
    exact ⟨htype.admits, htitle.admits, hhelp.admits, hformat.admits, hitems.admits,
      hproperties.admits, List.forall_mem_nil _⟩

end ParamDefinition

namespace SourceDefinition

def arrayCodec : Codec SourceDefinition where
  shape := arrayShape
  nullable := []
  decode v := do
    let record ← v.record? ["items"] false
    let items ← record.required "items" Reference.decode
    pure (array items)
  encode := toValue

def anyOfCodec : Codec SourceDefinition where
  shape := anyOfShape
  nullable := []
  decode v := do
    let record ← v.record? ["anyOf"] false
    let types ← record.required "anyOf" (Value.listOf? Reference.decode)
    pure (anyOf types)
  encode := toValue

theorem arrayCodec_sound : arrayCodec.Sound := by
  apply sound_of_record ["items"] rfl (by decide) (by decide)
  intro entries hfields _
  simp only [List.forall_mem_cons] at hfields
  obtain ⟨hitems, -⟩ := hfields
  obtain ⟨items, hitems⟩ := Reference.codec_sound.mandatory [] rfl hitems
  refine ⟨array items, _, ?_, ?_, rfl, ?_, ?_⟩
  · rfl
  · intro m hm hkeys
    exact bind_some (record?_mapping hkeys) (bind_some (hitems.read m hm) rfl)
  · simp only [List.forall_mem_cons]
    exact ⟨hitems.written, List.forall_mem_nil _⟩
  · simp only [List.forall_mem_cons]
    exact ⟨hitems.admits, List.forall_mem_nil _⟩

theorem anyOfCodec_sound : anyOfCodec.Sound := by
  apply sound_of_record ["anyOf"] rfl (by decide) (by decide)
  intro entries hfields _
  simp only [List.forall_mem_cons] at hfields
  obtain ⟨htypes, -⟩ := hfields
  obtain ⟨types, htypes⟩ := Reference.codec_sound.listOf.mandatory [] rfl htypes
  refine ⟨anyOf types, _, ?_, ?_, rfl, ?_, ?_⟩
  · rfl
  · intro m hm hkeys
    exact bind_some (record?_mapping hkeys) (bind_some (htypes.read m hm) rfl)
  · simp only [List.forall_mem_cons]
    exact ⟨htypes.written, List.forall_mem_nil _⟩
  · simp only [List.forall_mem_cons]
    exact ⟨htypes.admits, List.forall_mem_nil _⟩

def codec : Codec SourceDefinition := ⟨shape, [], decode, toValue⟩

/-- What is read is the form that the shape has accepted: the keys of the other forms are not its
own, so none of them can be read in its place. -/
theorem codec_sound : codec.Sound := by
  have hkey {name : String} {shape : Shape} {v : Value}
      (h : (Shape.closed [.mandatory name shape]).Admits v) :
      ∃ entries, v = .mapping entries ∧ name ∈ entries.keys := by
    obtain ⟨entries, rfl, hfields, -⟩ := Shape.admits_closed_iff.mp h
    exact ⟨entries, rfl, (hfields _ List.mem_cons_self).2 rfl⟩
  have hadmits (v : Value) : codec.shape.Admits v ↔
      Reference.shape.Admits v ∨ arrayShape.Admits v ∨ anyOfShape.Admits v := by
    simp only [codec, shape, Shape.Admits, Shape.AdmitsSome, or_false]
  apply sound_of_plain rfl
  · rw [hadmits]
    rintro (hnull | hnull | hnull)
    · exact Reference.codec_sound.solid hnull
    · exact arrayCodec_sound.solid hnull
    · exact anyOfCodec_sound.solid hnull
  · intro v hv
    rcases (hadmits v).mp hv with hv | hv | hv
    · obtain ⟨reference, hcarries⟩ := Reference.codec_sound.carries v hv
      have hdecode : Reference.decode v = some reference := hcarries.decoded
      refine ⟨single reference, ?_, hcarries.encoded.trans (Value.withoutNulls_nil v)⟩
      simp only [codec, decode, hdecode, Option.map_some, Option.some_or]
    · obtain ⟨array, hcarries⟩ := arrayCodec_sound.carries v hv
      refine ⟨array, ?_, hcarries.encoded.trans (Value.withoutNulls_nil v)⟩
      obtain ⟨entries, rfl, hitems⟩ := hkey hv
      have hsingle := Reference.decode_eq_none hitems (by decide)
      have harray : arrayCodec.decode (.mapping entries) = some array := hcarries.decoded
      simp only [codec, decode, hsingle, Option.map_none, Option.none_or]
      exact congrArg (Option.or · _) harray
    · obtain ⟨anyOf, hcarries⟩ := anyOfCodec_sound.carries v hv
      refine ⟨anyOf, ?_, hcarries.encoded.trans (Value.withoutNulls_nil v)⟩
      obtain ⟨entries, rfl, htypes⟩ := hkey hv
      have hsingle := Reference.decode_eq_none htypes (by decide)
      have harray := record?_mapping_eq_none ["items"] htypes (by decide)
      simp only [codec, decode, hsingle, Option.map_none, Option.none_or, harray]
      exact hcarries.decoded

end SourceDefinition

namespace Slots

variable {α : Type}

def nullable (declaration : List Place) : List Place :=
  [.key "properties"] :: Place.behind (.key "properties") (Place.behind .anyKey declaration) ++
    [[.key "required"]]

def codec (declaration : Codec α) : Codec (Slots α) where
  shape := shape declaration.shape
  nullable := nullable declaration.nullable
  decode := decode declaration.decode
  encode := toValue declaration.encode

theorem codec_sound {declaration : Codec α} (hdeclaration : declaration.Sound) :
    (codec declaration).Sound := by
  apply sound_of_record ["properties", "required"] rfl (by decide) (by simp [Field.optional])
  intro entries hfields _
  simp only [List.forall_mem_cons] at hfields
  obtain ⟨hproperties, hrequired, -⟩ := hfields
  obtain ⟨properties, hproperties⟩ := hdeclaration.mapOf.nullable
    (nullable declaration.nullable) (by simp [nullable, mapOf]) hproperties
  obtain ⟨required, hrequired⟩ := text_sound.listOf.nullable
    (nullable declaration.nullable) (by simp [nullable, listOf, text]; rfl) hrequired
  refine ⟨⟨properties, required⟩, _, ?_, ?_, rfl, ?_, ?_⟩
  · rfl
  · intro m hm hkeys
    exact bind_some (record?_mapping hkeys) <| bind_some (hproperties.read m hm) <|
      bind_some (hrequired.read m hm) rfl
  · simp only [List.forall_mem_cons]
    exact ⟨hproperties.written, hrequired.written, List.forall_mem_nil _⟩
  · simp only [List.forall_mem_cons]
    exact ⟨hproperties.admits, hrequired.admits, List.forall_mem_nil _⟩

end Slots

namespace OperatorDefinition

def typeTagCodec : Codec (List String) where
  shape := typeTagShape
  nullable := []
  decode := decodeTypeTags
  encode typeTags := .ofFields [("enum", some (.ofStrings typeTags))]

theorem typeTagCodec_sound : typeTagCodec.Sound := by
  have htexts : (text.listOf.narrowed (.strings none 1 1)).Sound := by
    apply text_sound.listOf.narrowed rfl
    rintro v ⟨items, rfl, -, -, hitems⟩
    refine Shape.admits_list_iff.mpr ⟨items, rfl, fun item hitem => ?_⟩
    obtain ⟨value, rfl, -⟩ := hitems item hitem
    exact .inl ⟨value, rfl⟩
  apply sound_of_record ["enum"] rfl (by decide) (by decide)
  intro entries hfields _
  simp only [List.forall_mem_cons] at hfields
  obtain ⟨henum, -⟩ := hfields
  obtain ⟨typeTags, henum⟩ := htexts.mandatory [] rfl henum
  refine ⟨typeTags, _, ?_, ?_, rfl, ?_, ?_⟩
  · rfl
  · intro m hm hkeys
    exact bind_some (record?_mapping hkeys) (henum.read m hm)
  · simp only [List.forall_mem_cons]
    exact ⟨henum.written, List.forall_mem_nil _⟩
  · simp only [List.forall_mem_cons]
    exact ⟨henum.admits, List.forall_mem_nil _⟩

def propertiesNullable : List Place :=
  Place.behind (.key "params") (Slots.nullable ParamDefinition.nullable) ++
    [[.key "sources"]] ++ Place.behind (.key "sources") (Slots.nullable [])

/-- What an operator takes: the part of its definition that holds the tag, the parameters and the
sources. -/
def propertiesCodec :
    Codec (List String × Slots ParamDefinition × Option (Slots SourceDefinition)) where
  shape := propertiesShape
  nullable := propertiesNullable
  decode v := do
    let record ← v.record? ["type", "params", "sources"] false
    let typeTags ← record.required "type" decodeTypeTags
    let params ← record.required "params" (Slots.decode ParamDefinition.decode)
    let sources ← record.optional "sources" (Slots.decode SourceDefinition.decode)
    pure (typeTags, params, sources)
  encode properties := .ofFields [
    ("type", some (.ofFields [("enum", some (.ofStrings properties.1))])),
    ("params", some (properties.2.1.toValue ParamDefinition.toValue)),
    ("sources", properties.2.2.map (Slots.toValue SourceDefinition.toValue))]

theorem propertiesCodec_sound : propertiesCodec.Sound := by
  have hparams := Slots.codec_sound ParamDefinition.codec_sound
  have hsources := Slots.codec_sound SourceDefinition.codec_sound
  apply sound_of_record ["type", "params", "sources"] rfl (by decide) (by decide)
  intro entries hfields _
  simp only [List.forall_mem_cons] at hfields
  obtain ⟨htags, hparamsKey, hsourcesKey, -⟩ := hfields
  obtain ⟨typeTags, htags⟩ := typeTagCodec_sound.mandatory propertiesNullable
    (by simp [propertiesNullable, typeTagCodec]) htags
  obtain ⟨params, hparams⟩ := hparams.mandatory propertiesNullable
    (by simp [propertiesNullable, Slots.codec, ParamDefinition.codec]) hparamsKey
  obtain ⟨sources, hsources⟩ := hsources.nullable propertiesNullable
    (by simp [propertiesNullable, Slots.codec, SourceDefinition.codec]) hsourcesKey
  refine ⟨(typeTags, params, sources), _, ?_, ?_, rfl, ?_, ?_⟩
  · rfl
  · intro m hm hkeys
    exact bind_some (record?_mapping hkeys) <| bind_some (htags.read m hm) <|
      bind_some (hparams.read m hm) <| bind_some (hsources.read m hm) rfl
  · simp only [List.forall_mem_cons]
    exact ⟨htags.written, hparams.written, hsources.written, List.forall_mem_nil _⟩
  · simp only [List.forall_mem_cons]
    exact ⟨htags.admits, hparams.admits, hsources.admits, List.forall_mem_nil _⟩

/-- The places where an operator definition may have nulls. -/
def nullable : List Place :=
  [[.key "title"], [.key "description"], [.key "help_text"]] ++
    Place.behind (.key "properties") propertiesNullable

def codec : Codec OperatorDefinition := ⟨shape, nullable, decode, toValue⟩

/-- The reader opens the inner record in passing; it comes to the same as reading it as a part. -/
theorem decode_eq (v : Value) : decode v = (do
    let record ← v.record? ["title", "description", "help_text", "properties"] false
    let title ← record.optional "title" Value.string?
    let description ← record.optional "description" Value.string?
    let helpText ← record.optional "help_text" Value.string?
    let (typeTags, params, sources) ← record.required "properties" propertiesCodec.decode
    pure { title, description, helpText, typeTags, params, sources }) := by
  simp [decode, propertiesCodec, Json.Record.required, Option.bind_assoc]

theorem codec_sound : codec.Sound := by
  apply sound_of_record ["title", "description", "help_text", "properties"] rfl (by decide)
    (by decide)
  intro entries hfields _
  simp only [List.forall_mem_cons] at hfields
  obtain ⟨htitle, hdescription, hhelp, hproperties, -⟩ := hfields
  obtain ⟨title, htitle⟩ := text_sound.nullable nullable
    (by simp [nullable, text]) htitle
  obtain ⟨description, hdescription⟩ := text_sound.nullable nullable
    (by simp [nullable, text]) hdescription
  obtain ⟨helpText, hhelp⟩ := text_sound.nullable nullable
    (by simp [nullable, text]) hhelp
  obtain ⟨⟨typeTags, params, sources⟩, hproperties⟩ :=
    propertiesCodec_sound.mandatory nullable
      (by simp [nullable, propertiesCodec]) hproperties
  refine ⟨⟨title, description, helpText, typeTags, params, sources⟩, _, ?_, ?_, rfl, ?_, ?_⟩
  · rfl
  · intro m hm hkeys
    refine (decode_eq _).trans ?_
    exact bind_some (record?_mapping hkeys) <| bind_some (htitle.read m hm) <|
      bind_some (hdescription.read m hm) <| bind_some (hhelp.read m hm) <|
      bind_some (hproperties.read m hm) rfl
  · simp only [List.forall_mem_cons]
    exact ⟨htitle.written, hdescription.written, hhelp.written, hproperties.written,
      List.forall_mem_nil _⟩
  · simp only [List.forall_mem_cons]
    exact ⟨htitle.admits, hdescription.admits, hhelp.admits, hproperties.admits,
      List.forall_mem_nil _⟩

end OperatorDefinition

namespace DescriptorInput

/-- The second revision accepts the inputs of the first one that do not have the key which it has
dropped. -/
theorem admits_v2_iff {v : Value} :
    (shape .v2).Admits v ↔ (shape .v1).Admits v ∧ v.get? "forceAsSource" = none := by
  have hfresh : ∀ field ∈ [Field.mandatory "name" .string, .mandatory "type" .string,
      .optional "schema" .anyMapping], field.name ≠ "forceAsSource" := by decide
  exact Shape.admits_closed_concat_iff hfresh

/-- An input may have nulls within its schema only, which is not looked into. -/
def codec (version : SchemaVersion) : Codec DescriptorInput := ⟨shape version, [], decode, toValue⟩

theorem codec_sound (version : SchemaVersion) : (codec version).Sound := by
  apply sound_of_record ["name", "type", "schema", "forceAsSource"] rfl (by decide)
    (by cases version <;> decide)
  intro entries hfields hclosed
  have hforce : (Field.optional "forceAsSource" .boolean).Admits entries := by
    cases version with
    | v1 => exact hfields _ (by simp)
    | v2 =>
      have hv2 : (shape .v2).Admits (.mapping entries) :=
        Shape.admits_closed_iff.mpr ⟨entries, rfl, hfields, hclosed⟩
      obtain ⟨_, heq, hfields', -⟩ := Shape.admits_closed_iff.mp (admits_v2_iff.mp hv2).1
      cases heq
      exact hfields' _ (by simp)
  have hname := hfields (.mandatory "name" .string) (by simp)
  have htype := hfields (.mandatory "type" .string) (by simp)
  have hschema := hfields (.optional "schema" .anyMapping) (by simp)
  obtain ⟨name, hname⟩ := text_sound.mandatory [] rfl hname
  obtain ⟨typeName, htype⟩ := text_sound.mandatory [] rfl htype
  obtain ⟨schema, hschema⟩ := fragment_sound.optional [] rfl hschema
  obtain ⟨forceAsSource, hforce⟩ := flag_sound.optional [] rfl hforce
  refine ⟨⟨name, typeName, schema, forceAsSource⟩, _, ?_, ?_, rfl, ?_, ?_⟩
  · rfl
  · intro m hm hkeys
    exact bind_some (record?_mapping hkeys) <| bind_some (hname.read m hm) <|
      bind_some (htype.read m hm) <| bind_some (hschema.read m hm) <|
      bind_some (hforce.read m hm) rfl
  · simp only [List.forall_mem_cons]
    exact ⟨hname.written, htype.written, hschema.written.trans Option.map_id_apply, hforce.written,
      List.forall_mem_nil _⟩
  · cases version with
    | v1 =>
      simp only [List.cons_append, List.nil_append, List.forall_mem_cons]
      exact ⟨hname.admits, htype.admits, hschema.admits, hforce.admits, List.forall_mem_nil _⟩
    | v2 =>
      simp only [List.cons_append, List.nil_append, List.forall_mem_cons]
      exact ⟨hname.admits, htype.admits, hschema.admits, List.forall_mem_nil _⟩

end DescriptorInput

theorem OutputType.name_ofName (name : String) : (OutputType.ofName name).name = name := by
  unfold OutputType.ofName
  split
  · simp [OutputType.name, *]
  · split
    · simp [OutputType.name, *]
    · split
      · simp [OutputType.name, *]
      · split
        · simp [OutputType.name, *]
        · rfl

namespace Descriptor

/-- The places where a descriptor may have nulls. -/
def nullable : List Place := [[.key "inputs"], [.key "required"]]

def codec (version : SchemaVersion) : Codec Descriptor := ⟨shape version, nullable, decode, toValue⟩

theorem outputType_sound (version : SchemaVersion) :
    (text.narrowed (outputTypeShape version)).Sound := by
  apply text_sound.narrowed rfl
  intro v hv
  cases version with
  | v1 =>
    obtain ⟨value, rfl, -⟩ := hv
    exact .inl ⟨value, rfl⟩
  | v2 =>
    obtain ⟨value, rfl, -⟩ | ⟨hnullable, -⟩ := hv
    · exact .inl ⟨value, rfl⟩
    · cases hnullable

theorem codec_sound (version : SchemaVersion) : (codec version).Sound := by
  apply sound_of_record
    ["title", "desc", "description", "helpUrl", "inputs", "required", "outputType"] rfl
    (by decide) (by simp [Field.mandatory, Field.optional])
  intro entries hfields _
  simp only [List.forall_mem_cons] at hfields
  obtain ⟨htitle, hdesc, hdescription, hhelp, hinputs, hrequired, houtput, -⟩ := hfields
  obtain ⟨title, htitle⟩ := text_sound.mandatory nullable rfl htitle
  obtain ⟨desc, hdesc⟩ := text_sound.optional nullable rfl hdesc
  obtain ⟨description, hdescription⟩ := text_sound.optional nullable rfl hdescription
  obtain ⟨helpUrl, hhelp⟩ := text_sound.optional nullable rfl hhelp
  obtain ⟨inputs, hinputs⟩ :=
    (DescriptorInput.codec_sound version).listOf.nullable nullable rfl hinputs
  obtain ⟨required, hrequired⟩ := text_sound.listOf.nullable nullable rfl hrequired
  obtain ⟨outputType, houtput⟩ :=
    (outputType_sound version).mandatory nullable rfl houtput
  refine ⟨⟨title, desc, description, helpUrl, inputs, required, .ofName outputType⟩, _, ?_, ?_, rfl,
    ?_, ?_⟩
  · rfl
  · intro m hm hkeys
    exact bind_some (record?_mapping hkeys) <| bind_some (htitle.read m hm) <|
      bind_some (hdesc.read m hm) <| bind_some (hdescription.read m hm) <|
      bind_some (hhelp.read m hm) <| bind_some (hinputs.read m hm) <|
      bind_some (hrequired.read m hm) <| bind_some (houtput.read m hm) rfl
  · simp only [List.forall_mem_cons, OutputType.name_ofName]
    exact ⟨htitle.written, hdesc.written, hdescription.written, hhelp.written, hinputs.written,
      hrequired.written, houtput.written, List.forall_mem_nil _⟩
  · simp only [List.forall_mem_cons]
    exact ⟨htitle.admits, hdesc.admits, hdescription.admits, hhelp.admits, hinputs.admits,
      hrequired.admits, houtput.admits, List.forall_mem_nil _⟩

end Descriptor

end FlowContract
