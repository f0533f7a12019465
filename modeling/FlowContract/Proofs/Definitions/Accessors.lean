import FlowContract.Proofs.Definitions.Sources
import FlowContract.Proofs.Json.Record

/-!
What a definition shows. A program asks a definition that has been parsed, and not the document
that it was parsed from, and what it is told is to be what the document says. Main statement: every
answer of an operator or a descriptor can be looked up in the document, where null says as little as
no value at all.
-/

namespace FlowContract

open Json (Value Record)
open Codec

/-- Nothing is said: there is no value, or null. -/
def Blank (written : Option Value) : Prop := written = none ∨ written = some .null

/-- A name is among those that are listed. -/
def Listed (name : String) (written : Option Value) : Prop :=
  ∃ items, written = some (.list items) ∧ .string name ∈ items

theorem Json.Record.cases_of_optional {α : Type} {record : Record} {name : String}
    {decode : Value → Option α} {o : Option α} (h : record.optional name decode = some o) :
    (Blank (record name) ∧ o = none) ∨
      ∃ v a, record name = some v ∧ v ≠ .null ∧ decode v = some a ∧ o = some a := by
  cases hfind : record name with
  | none =>
    unfold Record.optional at h
    rw [hfind] at h
    exact .inl ⟨.inl rfl, (Option.some.inj h).symm⟩
  | some v =>
    by_cases hv : v = .null
    · subst hv
      unfold Record.optional at h
      rw [hfind] at h
      exact .inl ⟨.inr rfl, (Option.some.inj h).symm⟩
    · obtain ⟨a, hdecode, rfl⟩ := Record.of_optional h hfind hv
      exact .inr ⟨v, a, rfl, hv, hdecode, rfl⟩

/-- If null cannot be read, then a key holds what can be read of it, or nothing. -/
theorem Json.Record.eq_bind_of_optional {α : Type} {record : Record} {name : String}
    {decode : Value → Option α} {o : Option α} (h : record.optional name decode = some o)
    (hnull : decode .null = none) : o = (record name).bind decode := by
  rcases cases_of_optional h with ⟨hblank | hblank, rfl⟩ | ⟨v, a, hfind, -, hdecode, rfl⟩
  · rw [hblank, Option.bind_none]
  · rw [hblank, Option.bind_some, hnull]
  · rw [hfind, Option.bind_some, hdecode]

theorem Json.Record.isSome_iff_of_optional {α : Type} {record : Record} {name : String}
    {decode : Value → Option α} {o : Option α} (h : record.optional name decode = some o) :
    o.isSome = true ↔ ∃ v, record name = some v ∧ v ≠ .null := by
  rcases cases_of_optional h with ⟨hblank | hblank, rfl⟩ | ⟨v, a, hfind, hv, -, rfl⟩
  · simp [hblank]
  · simp [hblank]
  · simp [hfind, hv]

namespace Path

/-- The place that is reached through mappings only. -/
def ofKeys (names : List String) : Path := ⟨names.map .key⟩

theorem resolve?_ofKeys_cons (name : String) (rest : List String) (v : Value) :
    (ofKeys (name :: rest)).resolve? v = (v.get? name).bind (ofKeys rest).resolve? :=
  resolve?_cons _ _ v

theorem resolve?_ofKeys_singleton (name : String) (v : Value) :
    (ofKeys [name]).resolve? v = v.get? name := by
  rw [resolve?_ofKeys_cons]
  cases v.get? name <;> rfl

end Path

theorem keys_of_record?_mapping {names : List String} {entries : SortedMap Value} {record : Record}
    (h : (Value.mapping entries).record? names false = some record) :
    ∀ key ∈ entries.keys, key ∈ names := by
  intro key hkey
  by_contra hname
  rw [record?_mapping_eq_none names hkey hname] at h
  cases h

/-- Names that have been read are those that are written. -/
theorem eq_ofStrings_of_listOf? {v : Value} {names : List String}
    (h : v.listOf? Value.string? = some names) : v = .ofStrings names := by
  obtain ⟨items, hitems, hread⟩ := Option.bind_eq_some_iff.mp h
  obtain rfl := Value.items?_eq_some_iff.mp hitems
  rw [mapM_eq_some_iff] at hread
  refine congrArg Value.list ?_
  clear h hitems
  induction hread with
  | nil => rfl
  | @cons item name _ _ hhead _ ih =>
    obtain rfl : item = .string name := by cases item <;> cases hhead; rfl
    rw [List.map_cons, ← ih]

theorem listed_iff_of_optional {record : Record} {key name : String}
    {required : Option (List String)}
    (h : record.optional key (Value.listOf? Value.string?) = some required) :
    required.any (·.contains name) = true ↔ Listed name (record key) := by
  unfold Listed
  rcases Record.cases_of_optional h with ⟨hblank | hblank, rfl⟩ | ⟨v, names, hfind, -, hnames, rfl⟩
  · simp [hblank]
  · simp [hblank]
  · obtain rfl := eq_ofStrings_of_listOf? hnames
    simp [hfind, Value.ofStrings]

/-- Declarations as a document has them: the names that are declared, and those that are listed as
required. -/
structure Slots.Shows {α : Type} (declared required : Option Value)
    (properties : Option (SortedMap α)) (isRequired : String → Bool) : Prop where
  none_iff : properties = none ↔ Blank declared
  keys : ∀ members, properties = some members →
    ∃ entries, declared = some (.mapping entries) ∧ members.keys = entries.keys
  required_iff : ∀ name, isRequired name = true ↔ Listed name required

theorem Slots.shows_of_decode {α : Type} {decode : Value → Option α} {entries : SortedMap Value}
    {slots : Slots α} (h : Slots.decode decode (.mapping entries) = some slots) :
    Slots.Shows (entries.find? "properties") (entries.find? "required") slots.properties
      slots.isRequired := by
  simp only [Slots.decode, Option.bind_eq_bind, Option.bind_eq_some_iff] at h
  obtain ⟨record, hrecord, properties, hproperties, required, hrequired, heq⟩ := h
  cases heq
  obtain rfl := eq_of_record?_mapping hrecord
  refine ⟨?_, ?_, ?_⟩
  · rcases Record.cases_of_optional hproperties with
      ⟨hblank, rfl⟩ | ⟨v, members, hfind, hv, -, rfl⟩
    · simp [hblank]
    · simp [Blank, hfind, hv]
  · rintro members rfl
    rcases Record.cases_of_optional hproperties with ⟨-, heq⟩ | ⟨v, _, hfind, -, hread, heq⟩
    · cases heq
    · cases heq
      obtain ⟨declared, rfl, hkeys, -⟩ := of_mapOf? hread
      exact ⟨declared, hfind, hkeys⟩
  · intro name
    exact listed_iff_of_optional hrequired

theorem Slots.shows_nothing {α : Type} :
    Slots.Shows none none (none : Option (SortedMap α)) fun _ => false where
  none_iff := by simp [Blank]
  keys := nofun
  required_iff := by simp [Listed]

/-- Where there may be no slots at all, there is nothing in them either. -/
theorem Slots.shows_of_optional {α : Type} (f : Codec α) {entries : SortedMap Value} {key : String}
    {slots : Option (Slots α)}
    (hadmits : (Field.optional key (Slots.shape f.shape).nullable).Admits entries)
    (h : Record.optional entries.find? key (Slots.decode f.decode) = some slots) :
    Slots.Shows ((entries.find? key).bind (·.get? "properties"))
      ((entries.find? key).bind (·.get? "required")) (slots.bind properties)
      fun name => slots.any (·.isRequired name) := by
  rcases Record.cases_of_optional h with
    ⟨hblank | hblank, rfl⟩ | ⟨v, slots, hfind, hsolid, hread, rfl⟩
  · rw [hblank]
    exact shows_nothing
  · rw [hblank]
    exact shows_nothing
  · have hv : (Slots.shape f.shape).nullable.Admits v := hadmits.1 v hfind
    obtain ⟨members, rfl, -⟩ :=
      Shape.admits_closed_iff.mp ((Shape.admits_nullable_iff.mp hv).resolve_left hsolid)
    rw [hfind]
    exact shows_of_decode hread

namespace ParamDefinition

/-- What a plain field can show. -/
def plainKeys : List String := ["type", "title", "help_text"]

/-- A parameter is restricted if anything else is said about it than a plain field can show. -/
theorem isRestricted_iff {entries : SortedMap Value} {param : ParamDefinition}
    (h : decode (.mapping entries) = some param) : param.isRestricted = true ↔
      ∃ key v, entries.find? key = some v ∧ v ≠ .null ∧ key ∉ plainKeys := by
  simp only [decode, Option.bind_eq_bind, Option.bind_eq_some_iff] at h
  obtain ⟨record, hrecord, _, -, _, -, _, -, format, hformat, items, hitems, properties,
    hproperties, heq⟩ := h
  cases heq
  have hkeys := keys_of_record?_mapping hrecord
  obtain rfl := eq_of_record?_mapping hrecord
  simp only [isRestricted, Bool.or_eq_true, Record.isSome_iff_of_optional hformat,
    Record.isSome_iff_of_optional hitems, Record.isSome_iff_of_optional hproperties]
  constructor
  · rintro ((⟨v, hfind, hv⟩ | ⟨v, hfind, hv⟩) | ⟨v, hfind, hv⟩)
    · exact ⟨"format", v, hfind, hv, by decide⟩
    · exact ⟨"items", v, hfind, hv, by decide⟩
    · exact ⟨"properties", v, hfind, hv, by decide⟩
  · rintro ⟨key, v, hfind, hv, hplain⟩
    have hkey := hkeys key (SortedMap.mem_keys_iff.mpr ⟨v, hfind⟩)
    simp only [plainKeys, List.mem_cons, List.not_mem_nil, or_false, not_or] at hkey hplain
    rcases hkey with rfl | rfl | rfl | rfl | rfl | rfl
    · exact absurd rfl hplain.1
    · exact absurd rfl hplain.2.1
    · exact absurd rfl hplain.2.2
    · exact .inl (.inl ⟨v, hfind, hv⟩)
    · exact .inl (.inr ⟨v, hfind, hv⟩)
    · exact .inr ⟨v, hfind, hv⟩

end ParamDefinition

namespace OperatorDefinition

/-- What an operator shows is what the document says about it. Where there are no sources, nothing
is declared in them and nothing is listed. -/
structure Shows (v : Value) (operator : OperatorDefinition) : Prop where
  typeTag : ((Path.ofKeys ["properties", "type", "enum"]).index 0).resolve? v =
    some (.string operator.typeTag)
  /-- There is always a tag, so that none needs to be made up. -/
  tagged : operator.typeTags.head? = some operator.typeTag
  title : operator.shownTitle = ((v.get? "title").bind Value.string?).getD operator.typeTag
  description : operator.shownDescription =
    ((v.get? "description").bind Value.string?).getD defaultDescription
  helpText : operator.helpText = (v.get? "help_text").bind Value.string?
  params : Slots.Shows ((Path.ofKeys ["properties", "params", "properties"]).resolve? v)
    ((Path.ofKeys ["properties", "params", "required"]).resolve? v)
    operator.params.properties operator.isParamRequired
  sources : Slots.Shows ((Path.ofKeys ["properties", "sources", "properties"]).resolve? v)
    ((Path.ofKeys ["properties", "sources", "required"]).resolve? v)
    operator.sourceProperties operator.isSourceRequired
  restricted : ∀ name param, operator.params.properties.bind (·.find? name) = some param →
    ∃ entries, (Path.ofKeys ["properties", "params", "properties", name]).resolve? v =
        some (.mapping entries) ∧
      (param.isRestricted = true ↔
        ∃ key u, entries.find? key = some u ∧ u ≠ .null ∧ key ∉ ParamDefinition.plainKeys)

theorem typeTag_of_decode {v : Value} {typeTags : List String} (hadmits : typeTagShape.Admits v)
    (h : decodeTypeTags v = some typeTags) :
    ∃ tag, v.get? "enum" = some (.ofStrings [tag]) ∧ typeTags = [tag] := by
  obtain ⟨entries, rfl, hfields, -⟩ := Shape.admits_closed_iff.mp hadmits
  obtain ⟨record, hrecord, htags⟩ := Option.bind_eq_some_iff.mp h
  obtain rfl := eq_of_record?_mapping hrecord
  obtain ⟨written, hwritten, hread⟩ := Option.bind_eq_some_iff.mp htags
  obtain rfl := eq_ofStrings_of_listOf? hread
  obtain ⟨items, hitems, hleast, hgreatest, -⟩ :=
    (hfields (.mandatory "enum" (.strings none 1 1)) List.mem_cons_self).1 _ hwritten
  cases hitems
  rw [List.length_map] at hleast hgreatest
  obtain ⟨tag, rfl⟩ := List.length_eq_one_iff.mp (Nat.le_antisymm hgreatest hleast)
  exact ⟨tag, hwritten, rfl⟩

/-- What is declared under a name is read from what the document declares there. -/
theorem param_of_decode {params : Value} {slots : Slots ParamDefinition} {name : String}
    {param : ParamDefinition} (hadmits : (Slots.shape ParamDefinition.shape).Admits params)
    (hdecode : Slots.decode ParamDefinition.decode params = some slots)
    (h : slots.properties.bind (·.find? name) = some param) :
    ∃ declared entries, params.get? "properties" = some declared ∧
      declared.get? name = some (.mapping entries) ∧
      ParamDefinition.decode (.mapping entries) = some param := by
  obtain ⟨top, rfl, -⟩ := Shape.admits_closed_iff.mp hadmits
  obtain ⟨members, hmembers, hparam⟩ := Option.bind_eq_some_iff.mp h
  obtain ⟨declared, hdeclared, hkeys⟩ := (Slots.shows_of_decode hdecode).keys members hmembers
  obtain ⟨u, hu⟩ : ∃ u, declared.find? name = some u := by
    rw [← SortedMap.mem_keys_iff, ← hkeys]
    exact SortedMap.mem_keys_iff.mpr ⟨param, hparam⟩
  obtain ⟨huAdmits, hread⟩ :=
    Slots.find?_of_decode ParamDefinition.codec hadmits hdecode hdeclared hu
  obtain ⟨entries, rfl, -⟩ := Shape.admits_closed_iff.mp huAdmits
  exact ⟨_, entries, hdeclared, hu, hread.symm.trans h⟩

theorem shows_of_parse {v : Value} {base : Path} {operator : OperatorDefinition}
    (h : parse v base = .ok operator) : Shows v operator := by
  obtain ⟨hadmits, hdecode⟩ := (codec.parses base v operator).mp h
  obtain ⟨top, rfl, -⟩ := Shape.admits_closed_iff.mp hadmits
  simp only [codec, decode, Option.bind_eq_bind, Option.bind_eq_some_iff] at hdecode
  obtain ⟨record, hrecord, title, htitle, description, hdescription, helpText, hhelp, _,
    hproperties, typeTags, htags, params, hparams, sources, hsources, heq⟩ := hdecode
  cases heq
  obtain rfl := eq_of_record?_mapping hrecord
  obtain ⟨inner, hinner, hproperties⟩ := Option.bind_eq_some_iff.mp hproperties
  have hinnerAdmits : propertiesShape.Admits inner :=
    hadmits.field (show Field.mandatory "properties" propertiesShape ∈ _ by simp) hinner
  obtain ⟨middle, rfl, hfields, -⟩ := Shape.admits_closed_iff.mp hinnerAdmits
  have hsourcesKey := hfields (.optional "sources" (Slots.shape SourceDefinition.shape).nullable)
    (by simp)
  obtain rfl := eq_of_record?_mapping hproperties
  obtain ⟨tagValue, htag, htags⟩ := Option.bind_eq_some_iff.mp htags
  obtain ⟨paramsValue, hparamsValue, hparams⟩ := Option.bind_eq_some_iff.mp hparams
  have htagAdmits : typeTagShape.Admits tagValue :=
    hinnerAdmits.field (show Field.mandatory "type" typeTagShape ∈ _ by simp) htag
  have hparamsAdmits : (Slots.shape ParamDefinition.shape).Admits paramsValue :=
    hinnerAdmits.field (show Field.mandatory "params" _ ∈ _ by simp) hparamsValue
  obtain ⟨tag, henum, rfl⟩ := typeTag_of_decode htagAdmits htags
  have hplace (name : String) (rest : List String) :
      (Path.ofKeys ("properties" :: name :: rest)).resolve? (.mapping top) =
        (middle.find? name).bind (Path.ofKeys rest).resolve? := by
    rw [Path.resolve?_ofKeys_cons]
    change (top.find? "properties").bind _ = _
    rw [hinner, Option.bind_some, Path.resolve?_ofKeys_cons]
    rfl
  have hmember (name key : String) :
      (Path.ofKeys ["properties", name, key]).resolve? (.mapping top) =
        (middle.find? name).bind (·.get? key) := by
    rw [hplace, funext (Path.resolve?_ofKeys_singleton key)]
  refine ⟨?_, rfl, ?_, ?_, ?_, ?_, ?_, ?_⟩
  · rw [Path.resolve?_index, hmember, htag, Option.bind_some, henum]
    rfl
  · obtain rfl := Record.eq_bind_of_optional htitle rfl
    rfl
  · obtain rfl := Record.eq_bind_of_optional hdescription rfl
    rfl
  · exact Record.eq_bind_of_optional hhelp rfl
  · obtain ⟨entries, rfl, -⟩ := Shape.admits_closed_iff.mp hparamsAdmits
    rw [hmember, hmember, hparamsValue]
    exact Slots.shows_of_decode hparams
  · rw [hmember, hmember]
    exact Slots.shows_of_optional SourceDefinition.codec hsourcesKey hsources
  · intro name param hparam
    obtain ⟨declared, entries, hdeclared, hentries, hread⟩ :=
      param_of_decode hparamsAdmits hparams hparam
    refine ⟨entries, ?_, ParamDefinition.isRestricted_iff hread⟩
    rw [hplace, hparamsValue, Option.bind_some, Path.resolve?_ofKeys_cons, hdeclared,
      Option.bind_some, Path.resolve?_ofKeys_singleton, hentries]

end OperatorDefinition

theorem DescriptorInput.get?_toValue_name (input : DescriptorInput) :
    input.toValue.get? "name" = some (.string input.name) :=
  Value.get?_ofFields (by simp) (by simp)

namespace Descriptor

/-- The inputs that a document lists, none if it has no list. -/
def listedInputs (v : Value) : List Value := ((v.get? "inputs").bind Value.items?).getD []

/-- What a descriptor shows is what the document says about it. -/
structure Shows (v : Value) (descriptor : Descriptor) : Prop where
  description : descriptor.shownDescription.map .string =
    (v.get? "description").or (v.get? "desc")
  inputs : descriptor.allInputs.map DescriptorInput.toValue = listedInputs v
  /-- The first input of a name is the first one that has it in the document. -/
  input : ∀ name, (descriptor.input? name).map DescriptorInput.toValue =
    (listedInputs v).find? fun input => (input.get? "name").bind Value.string? == some name
  required_iff : ∀ name, descriptor.isInputRequired name = true ↔ Listed name (v.get? "required")
  outputType : ∃ name, v.get? "outputType" = some (.string name) ∧
    descriptor.outputType = .ofName name ∧ descriptor.outputType.name = name

theorem map_find?_inputs (inputs : List DescriptorInput) (name : String) :
    (inputs.find? (·.name == name)).map DescriptorInput.toValue =
      (inputs.map DescriptorInput.toValue).find? fun input =>
        (input.get? "name").bind Value.string? == some name := by
  rw [List.find?_map]
  refine congrArg (Option.map _ <| List.find? · inputs) (funext fun input => ?_)
  rw [Function.comp_apply, input.get?_toValue_name]
  rfl

/-- A text that may be missing, but is not null. -/
theorem string_of_optional {entries : SortedMap Value} {name : String} {text : Option String}
    (hadmits : (Field.optional name .string).Admits entries)
    (h : Record.optional entries.find? name Value.string? = some text) :
    text.map .string = entries.find? name := by
  rcases Record.cases_of_optional h with ⟨hblank | hblank, rfl⟩ | ⟨v, value, hfind, -, hread, rfl⟩
  · rw [hblank]
    rfl
  · exact absurd (hadmits.1 _ hblank) text_sound.solid
  · cases v <;> cases hread
    exact hfind.symm

/-- Inputs have no nulls that could be left out, and are written as they are listed. -/
theorem map_toValue_of_optional (version : SchemaVersion) {entries : SortedMap Value}
    {inputs : Option (List DescriptorInput)}
    (hadmits : (Field.optional "inputs"
      (Shape.list (DescriptorInput.shape version)).nullable).Admits entries)
    (h : Record.optional entries.find? "inputs" (Value.listOf? DescriptorInput.decode) =
      some inputs) :
    (inputs.getD []).map DescriptorInput.toValue = listedInputs (.mapping entries) := by
  change _ = ((entries.find? "inputs").bind Value.items?).getD []
  rcases Record.cases_of_optional h with
    ⟨hblank | hblank, rfl⟩ | ⟨v, inputs, hfind, hv, hread, rfl⟩
  · rw [hblank]
    rfl
  · rw [hblank]
    rfl
  · have hlist : (Shape.list (DescriptorInput.shape version)).nullable.Admits v :=
      hadmits.1 v hfind
    obtain ⟨_, hcarries⟩ := (DescriptorInput.codec_sound version).listOf.carries v
      ((Shape.admits_nullable_iff.mp hlist).resolve_left hv)
    cases hread.symm.trans hcarries.decoded
    obtain rfl := hcarries.encoded.trans (Value.withoutNulls_nil v)
    rw [hfind]
    rfl

theorem shows_of_parse {version : SchemaVersion} {v : Value} {base : Path} {descriptor : Descriptor}
    (h : parse version v base = .ok descriptor) : Shows v descriptor := by
  obtain ⟨hadmits, hdecode⟩ := ((codec version).parses base v descriptor).mp h
  obtain ⟨entries, rfl, hfields, -⟩ := Shape.admits_closed_iff.mp hadmits
  simp only [codec, decode, Option.bind_eq_bind, Option.bind_eq_some_iff] at hdecode
  obtain ⟨record, hrecord, title, -, desc, hdesc, description, hdescription, helpUrl, -, inputs,
    hinputs, required, hrequired, outputName, houtput, heq⟩ := hdecode
  cases heq
  obtain rfl := eq_of_record?_mapping hrecord
  have hinputs := map_toValue_of_optional version (hfields _ (by simp)) hinputs
  refine ⟨?_, hinputs, ?_, ?_, ?_⟩
  · have hdesc := string_of_optional (hfields (.optional "desc" .string) (by simp)) hdesc
    have hdescription :=
      string_of_optional (hfields (.optional "description" .string) (by simp)) hdescription
    change (description.or desc).map .string = (entries.find? "description").or _
    rw [Option.map_or, hdescription, hdesc]
    rfl
  · intro name
    rw [← hinputs]
    exact map_find?_inputs _ name
  · intro name
    exact listed_iff_of_optional hrequired
  · obtain ⟨written, hwritten, hread⟩ := Option.bind_eq_some_iff.mp houtput
    cases written <;> cases hread
    exact ⟨outputName, hwritten, rfl, OutputType.name_ofName outputName⟩

end Descriptor

/-- Every answer of an operator or a descriptor that has been parsed, in either revision, is what
the document says. Null is answered as if there was nothing, a missing title with the tag, and a
name is required if it is listed, whether or not it is declared. -/
theorem accessors_agree_with_the_document :
    (∀ v base operator, OperatorDefinition.parse v base = .ok operator →
      OperatorDefinition.Shows v operator) ∧
    ∀ version v base descriptor, Descriptor.parse version v base = .ok descriptor →
      Descriptor.Shows v descriptor := by
  constructor
  · intro v base operator h
    exact OperatorDefinition.shows_of_parse h
  · intro version v base descriptor h
    exact Descriptor.shows_of_parse h

/-- A name can be required where none is declared. -/
theorem seed_is_required_undeclared :
    let v : Value := .ofPairs [("properties", .ofPairs [
      ("type", .ofPairs [("enum", .list [.string "Noise"])]),
      ("params", .ofPairs [("properties", .null), ("required", .list [.string "seed"])])])]
    let operator : OperatorDefinition := ⟨none, none, none, ["Noise"], ⟨none, some ["seed"]⟩, none⟩
    OperatorDefinition.parse v .root = .ok operator ∧ operator.shownTitle = "Noise" ∧
      operator.params.properties = none ∧ operator.isParamRequired "seed" = true := by
  intro v operator
  have hparse : OperatorDefinition.parse v .root = .ok operator := rfl
  have hshows := accessors_agree_with_the_document.1 v .root operator hparse
  refine ⟨hparse, hshows.title, ?_, ?_⟩
  · exact hshows.params.none_iff.mpr (.inr rfl)
  · exact (hshows.params.required_iff "seed").mpr ⟨_, rfl, List.mem_cons_self⟩

end FlowContract
