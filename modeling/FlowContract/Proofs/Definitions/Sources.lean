import FlowContract.Proofs.Definitions.Agreement
import FlowContract.Proofs.Shape.Alternatives

/-!
The sources of operators. What an input accepts is declared in one of three forms, of which no two
have a value in common, so that it does not matter in which order they are tried, by the shape or by
the reader. Main statements: a declaration is read in its form, with the connection and the element
type that it asks for; and a rejection tells about all three forms exactly if it is one of a source.
-/

namespace FlowContract

open Json (Value)
open Codec

/-- Where at most one element of a list has a result, it is found whatever comes before it. -/
theorem findSome?_eq_some_iff_of_unique {α β : Type} {l : List α} {f : α → Option β} {b : β}
    (h : ∀ a ∈ l, ∀ a' ∈ l, ∀ c c', f a = some c → f a' = some c' → a = a') :
    l.findSome? f = some b ↔ ∃ a ∈ l, f a = some b := by
  constructor
  · exact List.exists_of_findSome?_eq_some
  · rintro ⟨a, ha, hb⟩
    cases hfound : l.findSome? f with
    | none => cases (List.findSome?_eq_none_iff.mp hfound a ha).symm.trans hb
    | some c =>
      obtain ⟨a', ha', hc⟩ := List.exists_of_findSome?_eq_some hfound
      obtain rfl := h a ha a' ha' b c hb hc
      exact hc.symm.trans hb

/-- What is left of a target without the mark in front, once, or all of a target without a mark. -/
def Reference.Names (target name : String) : Prop :=
  target = definitionsMark ++ name ∨ name = target ∧ ∀ rest, target ≠ definitionsMark ++ rest

theorem Reference.names_name (reference : Reference) :
    Reference.Names reference.target reference.name := by
  have hstarts (rest : String) : reference.target = definitionsMark ++ rest →
      definitionsMark.toList.isPrefixOf reference.target.toList = true := by
    intro h
    rw [h, String.toList_append, List.isPrefixOf_iff_prefix]
    exact List.prefix_append _ _
  simp only [name]
  split
  · rename_i hmark
    left
    obtain ⟨rest, hrest⟩ := List.isPrefixOf_iff_prefix.mp hmark
    apply String.toList_injective
    rw [String.toList_append, ← hrest, List.drop_left, String.toList_ofList]
  · rename_i hmark
    right
    exact ⟨rfl, fun rest h => hmark (hstarts rest h)⟩

theorem Reference.eq_of_decode_list {items : List Value} {reference : Reference}
    (h : decode (.list items) = some reference) : ∃ target, items = [.string target] := by
  match items with
  | [] => cases h
  | [item] =>
    cases item with
    | string target => exact ⟨target, rfl⟩
    | _ => cases h
  | _ :: _ :: _ => cases h

/-- The forms in which a source is declared: one type, a list of one type, or one of several
types. -/
inductive SourceForm where
  | single
  | array
  | anyOf
  deriving DecidableEq

def SourceDefinition.form : SourceDefinition → SourceForm
  | single _ => .single
  | array _ => .array
  | anyOf _ => .anyOf

namespace SourceForm

/-- The forms in the order in which they are tried. -/
def all : List SourceForm := [single, array, anyOf]

theorem mem_all (form : SourceForm) : form ∈ all := by
  cases form <;> decide

/-- The one key of a form. -/
def key : SourceForm → String
  | single => "$ref"
  | array => "items"
  | anyOf => "anyOf"

theorem key_injective {form form' : SourceForm} (h : form.key = form'.key) : form = form' := by
  cases form <;> cases form' <;> first | rfl | exact absurd h (by decide)

def shape : SourceForm → Shape
  | single => Reference.shape
  | array => SourceDefinition.arrayShape
  | anyOf => SourceDefinition.anyOfShape

/-- Reads what stands under the key of a form. -/
def readContent : SourceForm → Value → Option SourceDefinition
  | single => fun v => v.string?.map fun target => .single ⟨target⟩
  | array => fun v => (Reference.decode v).map .array
  | anyOf => fun v => (v.listOf? Reference.decode).map .anyOf

/-- Reads a source in one form, whatever the other forms make of it. -/
def read (form : SourceForm) (v : Value) : Option SourceDefinition := do
  let record ← v.record? [form.key] false
  record.required form.key form.readContent

variable {form form' : SourceForm} {v : Value} {source source' : SourceDefinition}

theorem form_of_readContent (h : form.readContent v = some source) : source.form = form := by
  cases form with
  | single =>
    obtain ⟨target, -, rfl⟩ := Option.map_eq_some_iff.mp h
    rfl
  | array =>
    obtain ⟨items, -, rfl⟩ := Option.map_eq_some_iff.mp h
    rfl
  | anyOf =>
    obtain ⟨types, -, rfl⟩ := Option.map_eq_some_iff.mp h
    rfl

theorem read_mapping {entries : SortedMap Value} (h : form.read (.mapping entries) = some source) :
    form.key ∈ entries.keys ∧ (∀ key ∈ entries.keys, key = form.key) ∧
      (entries.find? form.key).bind form.readContent = some source := by
  obtain ⟨record, hrecord, hcontent⟩ := Option.bind_eq_some_iff.mp h
  obtain rfl := eq_of_record?_mapping hrecord
  obtain ⟨content, hfind, -⟩ := Option.bind_eq_some_iff.mp hcontent
  refine ⟨SortedMap.mem_keys_iff.mpr ⟨content, hfind⟩, ?_, hcontent⟩
  intro key hkey
  by_contra hne
  have hnone := record?_mapping_eq_none [form.key] hkey (by simpa using hne)
  cases hnone.symm.trans hrecord

/-- A list is read as the one field that a form has. -/
theorem read_list {items : List Value} (h : form.read (.list items) = some source) :
    ∃ content, items = [content] ∧ form.readContent content = some source := by
  obtain ⟨record, hrecord, hcontent⟩ := Option.bind_eq_some_iff.mp h
  match items with
  | [] =>
    cases hrecord
    cases hcontent
  | [content] =>
    cases hrecord
    have hlookup : ([form.key].zip [content]).lookup form.key = some content := by simp
    rw [Json.Record.required, hlookup] at hcontent
    exact ⟨content, rfl, hcontent⟩
  | _ :: _ :: _ => cases hrecord

/-- The form to which a content belongs that is read: a target, a reference, or a list of
references. A reference may be a list as well, that of its target. -/
def ofContent : Value → Option SourceForm
  | .string _ => some single
  | .mapping _ => some array
  | .list [.string _] => some array
  | .list _ => some anyOf
  | _ => none

theorem ofContent_of_readContent (h : form.readContent v = some source) :
    ofContent v = some form := by
  cases form with
  | single =>
    cases v with
    | string target => rfl
    | _ => cases h
  | array =>
    obtain ⟨reference, hreference, -⟩ := Option.map_eq_some_iff.mp h
    cases v with
    | mapping entries => rfl
    | list items =>
      obtain ⟨target, rfl⟩ := Reference.eq_of_decode_list hreference
      rfl
    | _ => cases hreference
  | anyOf =>
    obtain ⟨references, hreferences, -⟩ := Option.map_eq_some_iff.mp h
    obtain ⟨items, rfl, -⟩ := of_listOf? hreferences
    match items with
    | [.string target] => cases mapM_eq_some_iff.mp hreferences with | cons hhead _ => cases hhead
    | [] | [.null] | [.boolean _] | [.number _] | [.list _] | [.mapping _] => rfl
    | head :: _ :: _ => cases head <;> rfl

/-- A value is read in one form at most, by whichever spelling. -/
theorem eq_of_read (h : form.read v = some source) (h' : form'.read v = some source') :
    form = form' := by
  cases v with
  | mapping entries =>
    obtain ⟨-, hkeys, -⟩ := read_mapping h
    obtain ⟨hkey, -, -⟩ := read_mapping h'
    exact key_injective (hkeys _ hkey).symm
  | list items =>
    obtain ⟨content, rfl, hcontent⟩ := read_list h
    obtain ⟨_, heq, hcontent'⟩ := read_list h'
    cases heq
    have hform := ofContent_of_readContent hcontent
    exact Option.some.inj (hform.symm.trans (ofContent_of_readContent hcontent'))
  | _ => cases h

theorem form_of_read (h : form.read v = some source) : source.form = form := by
  cases v with
  | mapping entries =>
    obtain ⟨-, -, hcontent⟩ := read_mapping h
    obtain ⟨content, -, hcontent⟩ := Option.bind_eq_some_iff.mp hcontent
    exact form_of_readContent hcontent
  | list items =>
    obtain ⟨content, -, hcontent⟩ := read_list h
    exact form_of_readContent hcontent
  | _ => cases h

theorem read_single (v : Value) : single.read v = (Reference.decode v).map .single := by
  simp only [read, key, readContent, Reference.decode, Json.Record.required, Option.map_eq_bind,
    Function.comp_def, Option.bind_eq_bind, Option.pure_def, Option.bind_assoc, Option.bind_some]

theorem read_array (v : Value) : array.read v = SourceDefinition.arrayCodec.decode v := by
  simp only [read, key, readContent, SourceDefinition.arrayCodec, Json.Record.required,
    Option.map_eq_bind, Function.comp_def, Option.bind_eq_bind, Option.pure_def, Option.bind_assoc]

theorem read_anyOf (v : Value) : anyOf.read v = SourceDefinition.anyOfCodec.decode v := by
  simp only [read, key, readContent, SourceDefinition.anyOfCodec, Json.Record.required,
    Option.map_eq_bind, Function.comp_def, Option.bind_eq_bind, Option.pure_def, Option.bind_assoc]

/-- What the shape of a form accepts is read in this form, and is what is written for it. -/
theorem read_of_admits (h : form.shape.Admits v) :
    ∃ source, form.read v = some source ∧ source.toValue = v := by
  cases form with
  | single =>
    obtain ⟨reference, hcarries⟩ := Reference.codec_sound.carries v h
    have hdecode : Reference.decode v = some reference := hcarries.decoded
    refine ⟨.single reference, ?_, hcarries.encoded.trans v.withoutNulls_nil⟩
    rw [read_single, hdecode]
    rfl
  | array =>
    obtain ⟨source, hcarries⟩ := SourceDefinition.arrayCodec_sound.carries v h
    refine ⟨source, ?_, hcarries.encoded.trans v.withoutNulls_nil⟩
    rw [read_array]
    exact hcarries.decoded
  | anyOf =>
    obtain ⟨source, hcarries⟩ := SourceDefinition.anyOfCodec_sound.carries v h
    refine ⟨source, ?_, hcarries.encoded.trans v.withoutNulls_nil⟩
    rw [read_anyOf]
    exact hcarries.decoded

end SourceForm

theorem SourceDefinition.shape_eq : shape = .union (SourceForm.all.map SourceForm.shape) := rfl

theorem SourceDefinition.decode_eq (v : Value) :
    decode v = SourceForm.all.findSome? (SourceForm.read · v) := by
  have hforms : decode v = (SourceForm.single.read v).or
      ((SourceForm.array.read v).or (SourceForm.anyOf.read v)) := by
    rw [SourceForm.read_single, SourceForm.read_array, SourceForm.read_anyOf]
    rfl
  rw [hforms, SourceForm.all]
  simp only [List.findSome?]
  cases SourceForm.single.read v with
  | some source => rfl
  | none =>
    cases SourceForm.array.read v with
    | some source => rfl
    | none => cases SourceForm.anyOf.read v <;> rfl

namespace SourceForm

variable {form : SourceForm} {v : Value} {source : SourceDefinition}

theorem findSome?_read_eq_some_iff (forms : List SourceForm) :
    forms.findSome? (read · v) = some source ↔ ∃ form ∈ forms, form.read v = some source := by
  apply findSome?_eq_some_iff_of_unique
  intro form _ form' _ source source' h h'
  exact eq_of_read h h'

/-- The readers of the forms may be tried in any order. -/
theorem findSome?_read_of_perm {forms : List SourceForm} (h : forms.Perm all) (v : Value) :
    forms.findSome? (read · v) = SourceDefinition.decode v := by
  apply Option.ext
  intro source
  rw [SourceDefinition.decode_eq, findSome?_read_eq_some_iff, findSome?_read_eq_some_iff]
  simp only [h.mem_iff]

/-- The shapes of the forms may be tried in any order. -/
theorem accepts_of_perm {forms : List SourceForm} (h : forms.Perm all) (v : Value) :
    (Shape.union (forms.map shape)).accepts v = SourceDefinition.shape.accepts v := by
  rw [SourceDefinition.shape_eq, Bool.eq_iff_iff, Shape.accepts_eq_true_iff,
    Shape.accepts_eq_true_iff]
  simp only [Shape.Admits, Shape.admitsSome_iff, List.mem_map, h.mem_iff]

theorem decode_of_admits (h : form.shape.Admits v) : ∃ source,
    SourceDefinition.decode v = some source ∧ source.form = form ∧ source.toValue = v := by
  obtain ⟨source, hread, hwritten⟩ := read_of_admits h
  refine ⟨source, ?_, form_of_read hread, hwritten⟩
  rw [SourceDefinition.decode_eq, findSome?_read_eq_some_iff]
  exact ⟨form, form.mem_all, hread⟩

/-- No value has two of the forms: it would be read in both. -/
theorem eq_of_admits {form' : SourceForm} (h : form.shape.Admits v) (h' : form'.shape.Admits v) :
    form = form' := by
  obtain ⟨source, hread, -⟩ := read_of_admits h
  obtain ⟨source', hread', -⟩ := read_of_admits h'
  exact eq_of_read hread hread'

theorem admits_iff :
    SourceDefinition.shape.Admits v ↔ ∃ form : SourceForm, form.shape.Admits v := by
  rw [SourceDefinition.shape_eq, Shape.Admits, Shape.admitsSome_iff]
  constructor
  · rintro ⟨_, hmem, hadmits⟩
    obtain ⟨form, -, rfl⟩ := List.mem_map.mp hmem
    exact ⟨form, hadmits⟩
  · rintro ⟨form, hadmits⟩
    exact ⟨_, List.mem_map_of_mem form.mem_all, hadmits⟩

end SourceForm

namespace SourceDefinition

/-- Which connection a declaration of a form asks for, and for elements of which type. -/
inductive Asks : SourceForm → Value → String → Option String → Prop where
  | single {target name : String} (hname : Reference.Names target name) :
      Asks .single (.ofPairs [("$ref", .string target)]) name none
  | array {target name : String} (hname : Reference.Names target name) :
      Asks .array (.ofPairs [("items", .ofPairs [("$ref", .string target)])]) "array" (some name)
  | anyOf {targets names : List String} (hnames : List.Forall₂ Reference.Names targets names) :
      Asks .anyOf (.ofPairs [("anyOf", .list (targets.map fun target =>
        .ofPairs [("$ref", .string target)]))]) (",".intercalate names) none

theorem asks_toValue (source : SourceDefinition) :
    Asks source.form source.toValue source.pinType source.innerType := by
  cases source with
  | single reference => exact .single reference.names_name
  | array items => exact .array items.names_name
  | anyOf types =>
    have hnames : List.Forall₂ Reference.Names (types.map Reference.target)
        (types.map Reference.name) := by
      rw [List.forall₂_map_left_iff, List.forall₂_map_right_iff, List.forall₂_same]
      intro reference _
      exact reference.names_name
    have hasks := Asks.anyOf hnames
    rw [List.map_map] at hasks
    exact hasks

/-- The mark is left off once, and only in front. -/
example : (anyOf [⟨"#/definitions/#/definitions/A"⟩, ⟨"B#/definitions/"⟩]).pinType =
    "#/definitions/A,B#/definitions/" := by decide

end SourceDefinition

theorem Shape.Admits.field {fields : List Field} {closed : Bool} {v member : Value} {name : String}
    {inner : Shape} {required : Bool} (h : (record fields closed).Admits v)
    (hfield : ⟨name, inner, required⟩ ∈ fields) (hmember : v.get? name = some member) :
    inner.Admits member := by
  obtain ⟨entries, rfl, hfields, -⟩ := admits_record_iff.mp h
  exact (hfields _ hfield).1 member hmember

/-- What has members is not null. -/
theorem Shape.Admits.of_nullable {shape : Shape} {v member : Value} {name : String}
    (h : shape.nullable.Admits v) (hmember : v.get? name = some member) : shape.Admits v := by
  rcases admits_nullable_iff.mp h with rfl | h
  · cases hmember
  · exact h

theorem Json.Record.of_optional {α : Type} {record : Record} {decode : Value → Option α}
    {name : String} {v : Value} {o : Option α} (h : record.optional name decode = some o)
    (hfind : record name = some v) (hv : v ≠ .null) : ∃ a, decode v = some a ∧ o = some a := by
  cases hdecode : decode v with
  | some a =>
    rw [optional_of_find? hfind hv hdecode] at h
    exact ⟨a, rfl, (Option.some.inj h).symm⟩
  | none =>
    unfold Record.optional at h
    rw [hfind] at h
    cases v <;> first | exact absurd rfl hv | simp [hdecode] at h

/-- What is read of a mapping has the names of the mapping, and under each what the member there is
read as. -/
theorem of_mapOf? {α : Type} {decode : Value → Option α} {v : Value} {results : SortedMap α}
    (h : v.mapOf? decode = some results) : ∃ members, v = .mapping members ∧
      results.keys = members.keys ∧
      ∀ name, results.find? name = (members.find? name).bind decode := by
  obtain ⟨members, hmembers, htraverse⟩ := Option.bind_eq_some_iff.mp h
  obtain rfl := Value.entries?_eq_some_iff.mp hmembers
  obtain ⟨hkeys, hfind⟩ := SortedMap.traverse_eq_some_iff.mp htraverse
  exact ⟨members, rfl, hkeys, hfind⟩

/-- Of accepted slots each declaration is accepted, and what is in a slot is what its declaration is
read as. -/
theorem Slots.find?_of_decode {α : Type} (f : Codec α) {v declared u : Value} {slots : Slots α}
    {slot : String} (hadmits : (Slots.shape f.shape).Admits v)
    (hdecode : Slots.decode f.decode v = some slots)
    (hdeclared : v.get? "properties" = some declared) (hu : declared.get? slot = some u) :
    f.shape.Admits u ∧ slots.properties.bind (·.find? slot) = f.decode u := by
  have hmembers : (Shape.keyed .any f.shape).Admits declared :=
    (hadmits.field (show Field.optional "properties" _ ∈ _ by simp) hdeclared).of_nullable hu
  obtain ⟨entries, rfl, -⟩ := Shape.admits_closed_iff.mp hadmits
  simp only [Slots.decode, Option.bind_eq_bind, Option.bind_eq_some_iff] at hdecode
  obtain ⟨record, hrecord, _, hmap, _, -, heq⟩ := hdecode
  cases heq
  obtain rfl := eq_of_record?_mapping hrecord
  obtain ⟨members, rfl, hmembers⟩ := hmembers
  obtain ⟨results, hresults, rfl⟩ := Json.Record.of_optional hmap hdeclared (by simp)
  obtain ⟨_, heq, -, hread⟩ := of_mapOf? hresults
  cases heq
  have hu : members.find? slot = some u := hu
  refine ⟨(hmembers slot u (SortedMap.mem_entries_iff.mpr hu)).2, ?_⟩
  rw [Option.bind_some, hread, hu, Option.bind_some]

/-! What is said against a source. -/

namespace SourceDefinition

/-- All three forms refuse a declaration. The first one speaks for all, and what the others say is
carried along. -/
inductive Refused (u : Value) (place : Path) : Rejection → Prop where
  | intro {first second third : Rejection}
      (hfirst : SourceForm.single.shape.check u place = .error first)
      (hsecond : SourceForm.array.shape.check u place = .error second)
      (hthird : SourceForm.anyOf.shape.check u place = .error third)
      (halone : ∀ rejection ∈ [first, second, third], rejection.alternatives = []) :
      Refused u place { first with alternatives := [second, third] }

variable {u : Value} {place : Path} {rejection : Rejection}

theorem refused_of_mem_failures (hmem : rejection ∈ shape.failures u place) :
    Refused u place rejection := by
  have hhead {form : SourceForm} {first : Rejection} {others : List Rejection}
      (h : form.shape.failures u place = first :: others) :
      form.shape.check u place = .error first ∧ first.alternatives = [] := by
    have hmember : first ∈ form.shape.failures u place := by
      rw [h]
      exact List.mem_cons_self
    have hunions : form.shape.unions = [] := by cases form <;> rfl
    rw [Shape.check_eq_firstOf, h]
    exact ⟨rfl, Shape.alternatives_eq_nil hunions hmember⟩
  rw [shape_eq, Shape.failures, Shape.variantFailures_eq] at hmem
  simp only [SourceForm.all, List.map_cons, List.map_nil, Shape.unionFailures] at hmem
  cases hfirst : SourceForm.single.shape.failures u place with
  | nil => simp [hfirst] at hmem
  | cons first _ =>
    cases hsecond : SourceForm.array.shape.failures u place with
    | nil => simp [hsecond] at hmem
    | cons second _ =>
      cases hthird : SourceForm.anyOf.shape.failures u place with
      | nil => simp [hthird] at hmem
      | cons third _ =>
        obtain rfl : rejection = { first with alternatives := [second, third] } := by
          simpa [hfirst, hsecond, hthird] using hmem
        obtain ⟨hfirst, hfirstAlone⟩ := hhead hfirst
        obtain ⟨hsecond, hsecondAlone⟩ := hhead hsecond
        obtain ⟨hthird, hthirdAlone⟩ := hhead hthird
        apply Refused.intro hfirst hsecond hthird
        simp only [List.forall_mem_cons]
        exact ⟨hfirstAlone, hsecondAlone, hthirdAlone, List.forall_mem_nil _⟩

end SourceDefinition

namespace OperatorDefinition

/-- Where an operator declares a source. -/
def sourcePlace (slot : String) : Path :=
  ⟨[.key "properties", .key "sources", .key "properties", .key slot]⟩

/-- Whether a place is that of a source or within it. -/
def InSource (path : Path) : Prop :=
  ∃ slot, (sourcePlace slot).Encloses path

theorem unions_shape : shape.unions = [([.key "properties", .key "sources", .key "properties",
    .anyKey], [Reference.shape, SourceDefinition.arrayShape, SourceDefinition.anyOfShape])] := rfl

theorem eq_sourcePlace_of_covers {segments : List Segment}
    (h : Place.Covers [.key "properties", .key "sources", .key "properties", .anyKey] segments) :
    ∃ slot, segments = (sourcePlace slot).segments := by
  simp only [Place.Covers, List.forall₂_cons_left_iff, Step.takes_key_iff, Step.takes_anyKey_iff,
    List.forall₂_nil_left_iff] at h
  obtain ⟨_, _, rfl, ⟨_, _, rfl, ⟨_, _, rfl, ⟨_, _, ⟨slot, rfl⟩, rfl, rfl⟩, rfl⟩, rfl⟩, rfl⟩ := h
  exact ⟨slot, rfl⟩

variable {v u : Value} {base : Path} {slot : String} {rejection : Rejection}

theorem within_sourcePlace (base : Path) (slot : String) : base.within (sourcePlace slot) =
    (((base.key "properties").key "sources").key "properties").key slot := by
  simp only [sourcePlace, Path.within, Path.key, Path.push, List.append_assoc, List.cons_append,
    List.nil_append]

/-- What is said in the place of a source or within it has been said by the shape of sources. -/
theorem mem_source_failures (hmem : rejection ∈ shape.failures v base)
    (hpath : (base.within (sourcePlace slot)).Encloses rejection.path) :
    ∃ u, (sourcePlace slot).resolve? v = some u ∧
      rejection ∈ SourceDefinition.shape.failures u (base.within (sourcePlace slot)) := by
  obtain ⟨relative, hslot⟩ := hpath
  rw [within_sourcePlace] at hslot ⊢
  have hdeclared := hslot.trans (Path.push_within _ _ relative)
  have hsources := hdeclared.trans (Path.push_within _ _ _)
  have hproperties := hsources.trans (Path.push_within _ _ _)
  obtain ⟨inner, hinner, hmem⟩ := Shape.mem_failures_of_record
    (show Field.mandatory "properties" propertiesShape ∈ _ by simp) (by decide) hmem hproperties
    (Path.behind_ne_root _ _)
  obtain ⟨sources, hsources, hmem⟩ := Shape.mem_failures_of_record
    (show Field.optional "sources" (Slots.shape SourceDefinition.shape).nullable ∈ _ by simp)
    (by decide) hmem hsources (Path.behind_ne_root _ _)
  obtain ⟨declared, hdeclared, hmem⟩ := Shape.mem_failures_of_record
    (show Field.optional "properties" (Shape.keyed .any SourceDefinition.shape).nullable ∈ _
      by simp)
    (by decide) (Shape.mem_failures_of_orNull hmem) hdeclared (Path.behind_ne_root _ _)
  obtain ⟨u, hu, hmem⟩ := Shape.mem_failures_of_keyed (Shape.mem_failures_of_orNull hmem) hslot
  refine ⟨u, ?_, hmem⟩
  simp [Path.resolve?, sourcePlace, Segment.follow?, hinner, hsources, hdeclared, hu]

/-- Only a source is told about with alternatives, since nothing else has more than one form. -/
theorem exists_source_of_alternatives (hmem : rejection ∈ shape.failures v base)
    (halternatives : rejection.alternatives ≠ []) :
    ∃ slot, (base.within (sourcePlace slot)).Encloses rejection.path := by
  obtain ⟨segments, variants, u, hvisits, hunion⟩ :=
    Shape.union_of_alternatives hmem halternatives
  obtain ⟨place, hplace, hcovers⟩ := hvisits.applies.mem_unions
  rw [unions_shape, List.mem_singleton] at hplace
  cases hplace
  obtain ⟨slot, rfl⟩ := eq_sourcePlace_of_covers hcovers
  exact ⟨slot, Shape.encloses_of_mem_failures hunion⟩

/-- A rejection of an operator tells about the three forms if it is one of a source, and of nothing
else it tells more than one thing. -/
structure TellsForms (v : Value) (base : Path) (rejection : Rejection) : Prop where
  source_iff : ∀ slot, (base.within (sourcePlace slot)).Encloses rejection.path ↔
    ∃ u, (sourcePlace slot).resolve? v = some u ∧
      SourceDefinition.Refused u (base.within (sourcePlace slot)) rejection
  two_iff : rejection.alternatives.length = 2 ↔
    ∃ slot, (base.within (sourcePlace slot)).Encloses rejection.path
  alone : (∀ slot, ¬ (base.within (sourcePlace slot)).Encloses rejection.path) →
    rejection.alternatives = []

theorem tellsForms (h : parse v base = .error rejection) : TellsForms v base rejection := by
  have hcheck : shape.check v base = .error rejection := codec_sound.parse_eq_error_iff.mp h
  rw [Shape.check_eq_firstOf, Walk.firstOf_eq_error_iff] at hcheck
  have hmem := List.mem_of_head? hcheck
  have hrefused {slot : String} (hpath : (base.within (sourcePlace slot)).Encloses rejection.path) :
      ∃ u, (sourcePlace slot).resolve? v = some u ∧
        SourceDefinition.Refused u (base.within (sourcePlace slot)) rejection := by
    obtain ⟨u, hu, hsource⟩ := mem_source_failures hmem hpath
    exact ⟨u, hu, SourceDefinition.refused_of_mem_failures hsource⟩
  refine ⟨?_, ?_, ?_⟩
  · intro slot
    constructor
    · exact hrefused
    · rintro ⟨u, -, ⟨hfirst, -, -, -⟩⟩
      have hplace := Shape.encloses_of_check hfirst
      exact hplace
  · constructor
    · intro htwo
      apply exists_source_of_alternatives hmem
      intro hnil
      rw [hnil] at htwo
      cases htwo
    · rintro ⟨slot, hpath⟩
      obtain ⟨u, -, ⟨-, -, -, -⟩⟩ := hrefused hpath
      rfl
  · intro hnone
    by_contra halternatives
    obtain ⟨slot, hpath⟩ := exists_source_of_alternatives hmem halternatives
    exact hnone slot hpath

/-- Accepted sources are read, and those of the operator are what they are read as. -/
theorem sources_of_decode {operator : OperatorDefinition} {inner sources : Value}
    (hadmits : shape.Admits v) (hdecode : decode v = some operator)
    (hinner : v.get? "properties" = some inner) (hsources : inner.get? "sources" = some sources)
    (hsolid : sources ≠ .null) :
    ∃ slots, (Slots.shape SourceDefinition.shape).Admits sources ∧
      Slots.decode SourceDefinition.decode sources = some slots ∧
      operator.sources = some slots := by
  have hinnerAdmits : propertiesShape.Admits inner :=
    hadmits.field (show Field.mandatory "properties" propertiesShape ∈ _ by simp) hinner
  have hsourcesAdmits : (Slots.shape SourceDefinition.shape).nullable.Admits sources :=
    hinnerAdmits.field (show Field.optional "sources" _ ∈ _ by simp) hsources
  obtain ⟨top, rfl, -⟩ := Shape.admits_closed_iff.mp hadmits
  obtain ⟨middle, rfl, -⟩ := Shape.admits_closed_iff.mp hinnerAdmits
  simp only [decode, Option.bind_eq_bind, Option.bind_eq_some_iff] at hdecode
  obtain ⟨record, hrecord, _, -, _, -, _, -, _, hproperties, _, -, _, -, _, hslots, heq⟩ := hdecode
  cases heq
  obtain rfl := eq_of_record?_mapping hrecord
  obtain ⟨_, hfound, hproperties⟩ := Option.bind_eq_some_iff.mp hproperties
  cases hinner.symm.trans hfound
  obtain rfl := eq_of_record?_mapping hproperties
  obtain ⟨slots, hread, rfl⟩ := Json.Record.of_optional hslots hsources hsolid
  have hadmitted := (Shape.admits_nullable_iff.mp hsourcesAdmits).resolve_left hsolid
  exact ⟨slots, hadmitted, hread, rfl⟩

/-- What an operator that is parsed has in a slot is what the declaration in the slot is read as. -/
theorem exists_source_of_parse {operator : OperatorDefinition} (h : parse v base = .ok operator)
    (hslot : (sourcePlace slot).resolve? v = some u) :
    SourceDefinition.shape.Admits u ∧
      operator.sourceProperties.bind (·.find? slot) = SourceDefinition.decode u := by
  obtain ⟨hadmits, hdecode⟩ := (codec.parses base v operator).mp h
  obtain ⟨inner, hinner, sources, hsources, declared, hdeclared, hu⟩ :
      ∃ inner, v.get? "properties" = some inner ∧ ∃ sources, inner.get? "sources" = some sources ∧
        ∃ declared, sources.get? "properties" = some declared ∧ declared.get? slot = some u := by
    simpa [Path.resolve?, sourcePlace, Segment.follow?, Option.bind_eq_some_iff] using hslot
  have hsolid : sources ≠ .null := by
    rintro rfl
    cases hdeclared
  obtain ⟨slots, hslots, hread, hoperator⟩ :=
    sources_of_decode hadmits hdecode hinner hsources hsolid
  have hsource := Slots.find?_of_decode SourceDefinition.codec hslots hread hdeclared hu
  rwa [sourceProperties, hoperator, Option.bind_some]

end OperatorDefinition

/-- Sources are read without ambiguity, and refused with all that there is to say. A value has one
form at most, and is then read in this form, with the connection and the element type that it asks
for; the order of the forms does not matter, neither to the shape nor to the reader. An operator
that is parsed has in each slot what its declaration is read as, and an operator is refused with the
two other forms' rejections beside the first one's exactly if it is refused for a source. -/
theorem sources_are_read_unambiguously :
    (∀ (v : Value) (form form' : SourceForm), form.shape.accepts v = true →
      form'.shape.accepts v = true → form = form') ∧
    (∀ (v : Value) (form : SourceForm), form.shape.accepts v = true →
      ∃ source, SourceDefinition.decode v = some source ∧ source.form = form ∧
        SourceDefinition.Asks form v source.pinType source.innerType) ∧
    (∀ (v : Value) (forms : List SourceForm), forms.Perm SourceForm.all →
      (Shape.union (forms.map SourceForm.shape)).accepts v = SourceDefinition.shape.accepts v ∧
        forms.findSome? (SourceForm.read · v) = SourceDefinition.decode v) ∧
    (∀ v base operator slot u, OperatorDefinition.parse v base = .ok operator →
      (OperatorDefinition.sourcePlace slot).resolve? v = some u →
      (∃ form : SourceForm, form.shape.accepts u = true) ∧
        operator.sourceProperties.bind (·.find? slot) = SourceDefinition.decode u) ∧
    ∀ v base rejection, OperatorDefinition.parse v base = .error rejection →
      OperatorDefinition.TellsForms v base rejection := by
  simp only [Shape.accepts_eq_true_iff]
  refine ⟨?_, ?_, ?_, ?_, ?_⟩
  · intro v form form' h h'
    exact SourceForm.eq_of_admits h h'
  · intro v form h
    obtain ⟨source, hdecode, hform, rfl⟩ := SourceForm.decode_of_admits h
    have hasks := source.asks_toValue
    rw [hform] at hasks
    exact ⟨source, hdecode, hform, hasks⟩
  · intro v forms hforms
    exact ⟨SourceForm.accepts_of_perm hforms v, SourceForm.findSome?_read_of_perm hforms v⟩
  · intro v base operator slot u hparse hslot
    obtain ⟨hadmits, hsource⟩ := OperatorDefinition.exists_source_of_parse hparse hslot
    exact ⟨SourceForm.admits_iff.mp hadmits, hsource⟩
  · intro v base rejection hparse
    exact OperatorDefinition.tellsForms hparse

end FlowContract
